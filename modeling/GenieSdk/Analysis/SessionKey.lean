import GenieSdk.Model.GenieCrypto
import Mathlib.Data.List.TakeWhile

/-!
# The session key and the device secret

The text that is hashed determines the triple, unless the random has a zero byte: `strlen` then
ends the text before the triple.
-/

set_option autoImplicit false

namespace GenieSdk.Analysis

open GenieSdk.Model

/-- The digits are 16 different characters, none of them zero. -/
theorem hexDigit_inj : ∀ m n : Fin 16, hexDigit m = hexDigit n → m = n := by
  decide

/-- No digit is a zero byte. -/
theorem hexDigit_ne_zero : ∀ n : Fin 16, hexDigit n ≠ 0 := by
  decide

/-- Two digits determine their byte. -/
theorem hexByte_inj {a b : UInt8} (h : hexByte a = hexByte b) : a = b := by
  have ha := a.toNat_lt
  have hb := b.toNat_lt
  simp only [hexByte, List.cons.injEq, and_true] at h
  have hhigh := hexDigit_inj ⟨a.toNat / 16, by omega⟩ ⟨b.toNat / 16, by omega⟩ h.1
  have hlow := hexDigit_inj ⟨a.toNat % 16, by omega⟩ ⟨b.toNat % 16, by omega⟩ h.2
  have hhigh' : a.toNat / 16 = b.toNat / 16 := congrArg Fin.val hhigh
  have hlow' : a.toNat % 16 = b.toNat % 16 := congrArg Fin.val hlow
  apply UInt8.toNat_inj.1
  omega

/-- And are no zero bytes. -/
theorem hexByte_ne_zero (b : UInt8) : ∀ d ∈ hexByte b, d ≠ 0 := by
  have hb := b.toNat_lt
  intro d hd
  simp only [hexByte, List.mem_cons, List.not_mem_nil, or_false] at hd
  obtain rfl | rfl := hd
  · exact hexDigit_ne_zero ⟨b.toNat / 16, by omega⟩
  · exact hexDigit_ne_zero ⟨b.toNat % 16, by omega⟩

/-- A text has two digits for each byte. -/
theorem length_hextostring (l : List UInt8) : (hextostring l).length = 2 * l.length := by
  induction l with
  | nil => rfl
  | cons b l ih =>
    have hcons : hextostring (b :: l) = hexByte b ++ hextostring l := rfl
    rw [hcons, List.length_append, ih, List.length_cons]
    simp only [hexByte, List.length_cons, List.length_nil]
    omega

/-- **Hex text determines the bytes.** -/
theorem hextostring_inj {l l' : List UInt8} (h : hextostring l = hextostring l') : l = l' := by
  induction l generalizing l' with
  | nil =>
    have hlen := congrArg List.length h
    rw [length_hextostring, length_hextostring, List.length_nil] at hlen
    exact (List.length_eq_zero_iff.1 (by omega)).symm
  | cons b l ih =>
    cases l' with
    | nil =>
      have hlen := congrArg List.length h
      rw [length_hextostring, length_hextostring, List.length_cons, List.length_nil] at hlen
      omega
    | cons b' l' =>
      obtain ⟨hb, hl⟩ := List.append_inj (show hexByte b ++ hextostring l =
        hexByte b' ++ hextostring l' from h) rfl
      rw [hexByte_inj hb, ih hl]

/-- And no zero byte. -/
theorem hextostring_ne_zero (l : List UInt8) : ∀ d ∈ hextostring l, d ≠ 0 := by
  intro d hd
  obtain ⟨b, -, hd⟩ := List.mem_flatMap.1 hd
  exact hexByte_ne_zero b d hd

/-- The bytes determine the number. -/
theorem beBytes32_inj {m n : UInt32} (h : beBytes32 m = beBytes32 n) : m = n := by
  have hm := m.toNat_lt
  have hn := n.toNat_lt
  simp only [beBytes32, List.cons.injEq, and_true] at h
  obtain ⟨h3, h2, h1, h0⟩ := h
  have hnat : ∀ a b : ℕ, a < 2 ^ 8 → b < 2 ^ 8 → UInt8.ofNat a = UInt8.ofNat b → a = b := by
    intro a b ha hb hab
    have := congrArg UInt8.toNat hab
    rwa [UInt8.toNat_ofNat_of_lt' ha, UInt8.toNat_ofNat_of_lt' hb] at this
  have h3' := hnat _ _ (by omega) (by omega) h3
  have h2' := hnat _ _ (by omega) (by omega) h2
  have h1' := hnat _ _ (by omega) (by omega) h1
  have h0' := hnat _ _ (by omega) (by omega) h0
  apply UInt32.toNat_inj.1
  omega

/-- **The text of a triple determines the triple.** -/
theorem tripleText_inj {t t' : GenieTriple} (h : tripleText t = tripleText t') : t = t' := by
  unfold tripleText at h
  simp only [List.append_assoc] at h
  have hlen : ∀ l l' : List UInt8, l.length = l'.length →
      (hextostring l).length = (hextostring l').length := by
    intro l l' hl
    rw [length_hextostring, length_hextostring, hl]
  have h₁ := List.append_cancel_left h
  obtain ⟨hpid, h₂⟩ := List.append_inj h₁ (hlen _ _ rfl)
  obtain ⟨hmac, h₃⟩ := List.append_inj (List.append_cancel_left h₂) (hlen _ _ (by simp))
  have hkey := List.append_cancel_left h₃
  cases t
  cases t'
  simp only [GenieTriple.mk.injEq]
  exact ⟨beBytes32_inj (hextostring_inj hpid), Vector.toList_inj.1 (hextostring_inj hkey),
    Vector.toList_inj.1 (hextostring_inj hmac)⟩

/-- The text of a triple has no zero byte. -/
theorem tripleText_ne_zero (t : GenieTriple) : ∀ d ∈ tripleText t, d ≠ 0 := by
  intro d hd
  have hcomma : comma ≠ 0 := by decide
  simp only [tripleText, List.mem_append, List.mem_singleton] at hd
  obtain ((((rfl | hd) | rfl) | hd) | rfl) | hd := hd
  · exact hcomma
  · exact hextostring_ne_zero _ d hd
  · exact hcomma
  · exact hextostring_ne_zero _ d hd
  · exact hcomma
  · exact hextostring_ne_zero _ d hd

/-- Without a zero byte in the random all of the text is hashed. -/
theorem cipherInput_whole {random : Vector UInt8 16} (h : (0 : UInt8) ∉ random.toList)
    (t : GenieTriple) : cipherInput random t = random.toList ++ tripleText t := by
  unfold cipherInput
  apply List.takeWhile_eq_self_iff.2
  intro d hd
  rw [decide_eq_true_eq]
  obtain hd | hd := List.mem_append.1 hd
  · rintro rfl
    exact h hd
  · exact tripleText_ne_zero t d hd

/-- With one the text ends in the random. -/
theorem cipherInput_cut {random : Vector UInt8 16} (h : (0 : UInt8) ∈ random.toList)
    (t : GenieTriple) : cipherInput random t = random.toList.takeWhile (· ≠ 0) := by
  unfold cipherInput
  rw [List.takeWhile_append, if_neg]
  intro hlen
  have hall := List.takeWhile_eq_self_iff.1 ((List.takeWhile_sublist _).eq_of_length hlen) 0 h
  simp at hall

/-- A device with the given secret. -/
def withKey (key : UInt8) : GenieTriple := ⟨0, Vector.replicate 16 key, Vector.replicate 6 0⟩

/-- **The session key depends on the triple** if and only if the peer's random has no zero byte. -/
theorem session_key_depends (c : Crypto) (hsha : Function.Injective c.sha256)
    (random : Vector UInt8 16) :
    (∀ t t' : GenieTriple, t ≠ t' → cipherInput random t ≠ cipherInput random t' ∧
      (genieAisGetCipher c t random).1 ≠ (genieAisGetCipher c t' random).1) ↔
      (0 : UInt8) ∉ random.toList := by
  constructor
  · intro h hzero
    have hne : withKey 0 ≠ withKey 1 := by decide
    apply (h _ _ hne).1
    rw [cipherInput_cut hzero, cipherInput_cut hzero]
  · intro hzero t t' hne
    have hdiff : cipherInput random t ≠ cipherInput random t' := by
      rw [cipherInput_whole hzero, cipherInput_whole hzero]
      intro heq
      exact hne (tripleText_inj (List.append_cancel_left heq))
    exact ⟨hdiff, fun heq => hdiff (hsha heq)⟩

/-- The random of 16 bytes 1. -/
def ones : Vector UInt8 16 := Vector.replicate 16 1

/-- SHA-256 of the text of `ones` and `withKey 0`. -/
def onesDigest0 : List UInt8 :=
  [0xee, 0xf7, 0x68, 0x6b, 0x70, 0xc1, 0x2a, 0x72, 0x83, 0x8a, 0x4f, 0x9e, 0x3a, 0xf9, 0x46, 0x2f,
    0x4d, 0xc9, 0x59, 0x0b, 0x13, 0xa5, 0x4c, 0xeb, 0x5e, 0x54, 0x74, 0xf5, 0x00, 0x4a, 0x11, 0x19]

/-- SHA-256 of the text of `ones` and `withKey 1`. -/
def onesDigest1 : List UInt8 :=
  [0x37, 0xe2, 0xf1, 0x6a, 0x66, 0x61, 0x81, 0x85, 0x91, 0xeb, 0x21, 0x86, 0xb1, 0x1b, 0x7c, 0x57,
    0x62, 0xf5, 0x60, 0x0c, 0x65, 0x28, 0x33, 0x6a, 0x39, 0x56, 0x6c, 0x14, 0x20, 0xda, 0x22, 0x9b]

/-- An injective function that agrees with SHA-256 on these two texts; its other values are longer. -/
def sampleHash (text : List UInt8) : List UInt8 :=
  if text = cipherInput ones (withKey 0) then onesDigest0
  else if text = cipherInput ones (withKey 1) then onesDigest1
  else List.replicate 33 0 ++ text

/-- `sampleHash` never maps two texts to one value. -/
theorem sampleHash_injective : Function.Injective sampleHash := by
  have hdigests : onesDigest0 ≠ onesDigest1 := by decide
  have hlong : ∀ digest text : List UInt8, digest.length = 32 → List.replicate 33 0 ++ text ≠ digest := by
    rintro _ text hlen rfl
    rw [List.length_append, List.length_replicate] at hlen
    omega
  intro text text' heq
  unfold sampleHash at heq
  split_ifs at heq with h0 h0' h1' h1 h0' h1' h0' h1'
  · exact h0.trans h0'.symm
  · exact absurd heq hdigests
  · exact absurd heq.symm (hlong _ _ rfl)
  · exact absurd heq.symm hdigests
  · exact h1.trans h1'.symm
  · exact absurd heq.symm (hlong _ _ rfl)
  · exact absurd heq (hlong _ _ rfl)
  · exact absurd heq (hlong _ _ rfl)
  · exact List.append_cancel_left heq

/-- SHA-256 on two texts whose random has no zero byte; AES takes no part. -/
def sampleCrypto : Crypto := ⟨sampleHash, fun _ block => block, fun _ block => some block⟩

/-- Two triples and a random without a zero byte: the keys are the first bytes of different digests. -/
theorem session_key_depends_ones :
    (genieAisGetCipher sampleCrypto (withKey 0) ones).1 ≠ (genieAisGetCipher sampleCrypto (withKey 1) ones).1 :=
  ((session_key_depends sampleCrypto sampleHash_injective ones).2 (by decide) (withKey 0) (withKey 1)
    (by decide)).2

/-- The random of 16 zero bytes: the empty text is hashed, whatever the triple is. -/
theorem session_key_zeros :
    withKey 0 ≠ withKey 1 ∧
      cipherInput (Vector.replicate 16 0) (withKey 0) =
        cipherInput (Vector.replicate 16 0) (withKey 1) ∧
      ∀ (c : Crypto) (t : GenieTriple),
        (genieAisGetCipher c t (Vector.replicate 16 0)).1 = c.sha256 [] := by
  refine ⟨by decide, rfl, ?_⟩
  intro c t
  rfl

end GenieSdk.Analysis
