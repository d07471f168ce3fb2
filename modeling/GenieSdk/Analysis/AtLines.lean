import GenieSdk.Model.GenieAt
import Mathlib.Data.List.TakeWhile

/-!
# Lines of AT commands

A copy of the parser goes up to a separator or to the end of the line, whatever the length
(`strChr_eq`), and the fields are counted by three separators but cut at one of them
(`cutFields_fields`, `cutFields_null`). So **the parser stays in bounds exactly on the lines whose parts
are shorter than a row and whose parameters hold no other separator** (`parser_in_bounds_iff`). On such a
line **the parameters are split exactly** (`at_parameters_split`); a command without an execute handler
gets none.
-/

set_option autoImplicit false

namespace GenieSdk.Analysis.At

open GenieSdk.Model
open GenieSdk.Lib

/-! ## Strings -/

/-- What comes before the first `e`. -/
def upTo (e : UInt8) (s : List UInt8) : List UInt8 := s.takeWhile fun x => x ≠ e

section Strings

variable {c e : UInt8} {s t u : List UInt8}

/-- Without the end character all of the string is taken. -/
theorem upTo_of_not_mem (h : e ∉ s) : upTo e s = s := by
  unfold upTo
  apply List.takeWhile_eq_self_iff.2
  intro x hx
  simpa using ne_of_mem_of_not_mem hx h

/-- Otherwise all that is before it. -/
theorem upTo_append (h : e ∉ u) : upTo e (u ++ e :: t) = u := by
  have hu := upTo_of_not_mem h
  unfold upTo at hu ⊢
  rw [List.takeWhile_append, hu]
  simp

/-- `strchr` finds no character that is not there. -/
theorem strchr_of_not_mem (h : c ∉ s) : strchr c s = none := by
  induction s with
  | nil => rfl
  | cons x s ih =>
    obtain ⟨hx, hs⟩ := not_or.1 (List.mem_cons.not.1 h)
    rw [strchr, if_neg (Ne.symm hx), ih hs]

/-- It finds the first one. -/
theorem strchr_append (h : c ∉ u) : strchr c (u ++ c :: t) = some (c :: t) := by
  induction u with
  | nil => simp [strchr]
  | cons x u ih =>
    obtain ⟨hx, hu⟩ := not_or.1 (List.mem_cons.not.1 h)
    rw [List.cons_append, strchr, if_neg (Ne.symm hx), ih hu]

/-- What `strchr` finds begins with the character. -/
theorem strchr_some (h : strchr c s = some t) : ∃ u t', s = u ++ c :: t' ∧ c ∉ u ∧ t = c :: t' := by
  have hmem : c ∈ s := by
    by_contra hc
    rw [strchr_of_not_mem hc] at h
    exact absurd h (by simp)
  obtain ⟨u, t', rfl, hu⟩ := List.eq_append_cons_of_mem hmem
  rw [strchr_append hu] at h
  exact ⟨u, t', rfl, hu, (Option.some.inj h).symm⟩

/-- What is copied, with its NUL. -/
theorem strChr_eq (e : UInt8) (s : List UInt8) : (strChr e s).1 = upTo e s ++ [0] := by
  induction s with
  | nil => rfl
  | cons x s ih =>
    by_cases hx : x = e
    · simp [strChr, upTo, hx]
    · have hup : upTo e (x :: s) = x :: upTo e s := by simp [upTo, hx]
      rw [strChr, if_neg hx, ih, hup, List.cons_append]

/-- The first of the parts. -/
theorem upTo_of_splitOn {f : List UInt8} {fs : List (List UInt8)} (h : s.splitOn c = f :: fs) :
    upTo c s = f := by
  by_cases hc : c ∈ s
  · obtain ⟨u, t, rfl, hu⟩ := List.eq_append_cons_of_mem hc
    rw [List.splitOn_append_cons_self_of_not_mem hu] at h
    rw [upTo_append hu]
    exact (List.cons.inj h).1
  · rw [List.splitOn_eq_singleton hc] at h
    rw [upTo_of_not_mem hc]
    exact (List.cons.inj h).1

/-- The parts and the separators between them. -/
theorem length_splitOn (c : UInt8) (s : List UInt8) : (s.splitOn c).length = s.count c + 1 := by
  induction s with
  | nil => simp
  | cons x s ih =>
    rw [List.splitOn_cons_eq_if_modifyHead]
    by_cases hx : x = c
    · simp [hx, ih]
    · simp [hx, ih]

/-- The count is that of the commas, question marks and equals signs. -/
theorem argcLen_eq (s : List UInt8) :
    argcLen s = s.count atComma + s.countP fun x => x = atQuestion ∨ x = atEquals := by
  induction s with
  | nil => rfl
  | cons x s ih =>
    unfold argcLen at ih ⊢
    rw [List.countP_cons, List.count_cons, List.countP_cons, ih]
    by_cases hc : x = atComma
    · subst hc
      simp [show atComma ≠ atQuestion by decide, show atComma ≠ atEquals by decide]
      omega
    · simp [hc]
      omega

end Strings

/-! ## Copies -/

/-- The copies for the rows from `k` on, each with its pointer. -/
def fillFields (args : AtArgs) (k : ℕ) : List (List UInt8) → AtArgs
  | [] => args
  | f :: fs => fillFields ((args.copy k (f ++ [0])).point k) (k + 1) fs

section Copies

variable {args : AtArgs} {b e : UInt8} {k i : ℕ} {s t f : List UInt8} {fs : List (List UInt8)}

/-- Without the start character there is nothing to cut. -/
theorem charCut_of_not_mem (h : b ∉ s) : args.charCut k s b e = none := by
  unfold AtArgs.charCut
  rw [strchr_of_not_mem h]
  simp

/-- Otherwise what is behind it is copied up to the end character. -/
theorem charCut_eq (hb : b ≠ 0) (h : strchr b s = some t) :
    args.charCut k s b e = some (args.copy k (upTo e t.tail ++ [0])) := by
  unfold AtArgs.charCut
  rw [if_neg hb, h]
  simp only
  rw [strChr_eq]

/-- The loop cuts one field at each comma. -/
theorem cutFields_fields (h : s.splitOn atComma = f :: fs) :
    args.cutFields s i fs.length = (fillFields args (2 + i) fs, true) := by
  induction fs generalizing args s f i with
  | nil => rfl
  | cons g gs ih =>
    have hc : atComma ∈ s := by
      by_contra hc
      rw [List.splitOn_eq_singleton hc] at h
      exact absurd h (by simp)
    obtain ⟨u, t, rfl, hu⟩ := List.eq_append_cons_of_mem hc
    rw [List.splitOn_append_cons_self_of_not_mem hu] at h
    have ht : t.splitOn atComma = g :: gs := (List.cons.inj h).2
    have hself : strchr atComma (atComma :: t) = some (atComma :: t) := strchr_append (u := []) (by simp)
    rw [List.length_cons, AtArgs.cutFields, strchr_append hu]
    simp only
    rw [charCut_eq (by decide) hself, Option.getD_some, List.tail_cons, upTo_of_splitOn ht, ih ht,
      fillFields, Nat.add_assoc]

/-- A round too many follows a NULL. -/
theorem cutFields_null {n : ℕ} (h : s.count atComma < n) : (args.cutFields s i n).2 = false := by
  induction n generalizing args s i with
  | zero => exact absurd h (Nat.not_lt_zero _)
  | succ n ih =>
    rw [AtArgs.cutFields]
    by_cases hc : atComma ∈ s
    · obtain ⟨u, t, rfl, hu⟩ := List.eq_append_cons_of_mem hc
      rw [strchr_append hu]
      apply ih
      rw [List.count_append, List.count_cons_self] at h
      rw [List.tail_cons]
      omega
    · rw [strchr_of_not_mem hc]

/-- The rows that the fields fill are in `argqv`. -/
theorem argqv_fillFields (args : AtArgs) (k : ℕ) (fs : List (List UInt8)) (i : ℕ) :
    (fillFields args k fs).argqv i = if k ≤ i ∧ i < k + fs.length then some i else args.argqv i := by
  induction fs generalizing args k with
  | nil => simp [fillFields]
  | cons f fs ih =>
    rw [fillFields, ih, List.length_cons]
    by_cases hi : i = k
    · subst hi
      simp [AtArgs.point]
    · have hiff : k + 1 ≤ i ∧ i < k + 1 + fs.length ↔ k ≤ i ∧ i < k + (fs.length + 1) := by omega
      simp only [AtArgs.point, AtArgs.copy, if_neg hi, hiff]

end Copies

/-! ## In bounds -/

/-- Every copy was within its row. -/
def CopiesFit (args : AtArgs) : Prop :=
  ∀ w ∈ args.copies, w.1 < atMaxArgc ∧ w.2.length ≤ atMaxArgvLen

/-- What the parser is to keep to. -/
structure InBounds (r : AtArgs × AtEnd) : Prop where
  copies : CopiesFit r.1
  notNull : r.2 ≠ .nullDeref
  pointers : ∀ call reply, r.2 = .looked call reply → none ∉ call.argv

/-- The part of a line leaves room for its NUL in a row. -/
def PartFits (f : List UInt8) : Prop := f.length < atMaxArgvLen

/-- `hcc` is what follows the name. A line with too many or too long parameters is refused. -/
def ParamsFit (hcc : List UInt8) : Prop :=
  argcLen hcc ≤ atMaxArgc - 2 → hcc.length ≤ atMaxArgc * atMaxArgvLen →
    atQuestion ∉ hcc.tail ∧ atEquals ∉ hcc.tail ∧ ∀ f ∈ hcc.tail.splitOn atComma, PartFits f

/-- The lines that the parser is made for. -/
def AtFits (data : List UInt8) : Prop :=
  isAtCmd data = true →
    (argvType data = atCmdAdd → ∀ s, strchr atPlus data = some s → PartFits s.tail) ∧
    (argvType data = atCmdQuery →
      ∀ s, strchr atPlus data = some s → PartFits (upTo atQuestion s.tail)) ∧
    (argvType data = atCmdDou → ∀ s, strchr atPlus data = some s →
      PartFits (upTo atEquals s.tail) ∧ ∃ hcc, strchr atEquals data = some hcc ∧ ParamsFit hcc) ∧
    (argvType data = atCmdFind →
      ∃ s, strrchr atPlus data = some s ∧ PartFits (upTo atEquals s.tail))

section Bounds

variable {args : AtArgs} {k : ℕ} {data hcc t f : List UInt8} {fs : List (List UInt8)}

/-- At the start there are no copies. -/
theorem copiesFit_init : CopiesFit AtArgs.init := by
  intro w hw
  exact absurd hw (by simp [AtArgs.init])

/-- One more copy fits if its row is there and the part is short enough. -/
theorem copiesFit_copy : CopiesFit (args.copy k (f ++ [0])) ↔
    CopiesFit args ∧ k < atMaxArgc ∧ PartFits f := by
  unfold CopiesFit PartFits AtArgs.copy
  simp only [List.mem_append, List.mem_singleton]
  constructor
  · intro h
    have hlast := h (k, f ++ [0]) (Or.inr rfl)
    rw [List.length_append] at hlast
    exact ⟨fun w hw => h w (Or.inl hw), hlast⟩
  · rintro ⟨hargs, hk, hf⟩ w (hw | rfl)
    · exact hargs w hw
    · rw [List.length_append]
      exact ⟨hk, hf⟩

/-- The copies of the fields fit if each of them is short enough. -/
theorem copiesFit_fillFields (hk : k + fs.length ≤ atMaxArgc) :
    CopiesFit (fillFields args k fs) ↔ CopiesFit args ∧ ∀ f ∈ fs, PartFits f := by
  induction fs generalizing args k with
  | nil => simp [fillFields]
  | cons f fs ih =>
    rw [List.length_cons] at hk
    have hpoint : CopiesFit ((args.copy k (f ++ [0])).point k) ↔ CopiesFit (args.copy k (f ++ [0])) :=
      Iff.rfl
    rw [fillFields, ih (by omega), hpoint, copiesFit_copy, List.forall_mem_cons, and_assoc, and_assoc,
      and_iff_right (show k < atMaxArgc by omega)]

/-- A refused line is in bounds if its copies fit. -/
theorem inBounds_refused : InBounds (args, .refused) ↔ CopiesFit args :=
  ⟨InBounds.copies, fun h => ⟨h, by simp, by simp⟩⟩

/-- A read through a null pointer is not in bounds. -/
theorem not_inBounds_nullDeref : ¬ InBounds (args, .nullDeref) := fun h => h.notNull rfl

/-- The first two pointers are set before every lookup. -/
theorem inBounds_look {type : AtOp} {argc : ℕ} : InBounds (args.look type argc) ↔
    CopiesFit args ∧ ∀ i < argc, 2 ≤ i → args.argqv i ≠ none := by
  have hset : ∀ i, ((args.point 0).point 1).argqv i = none ↔ 2 ≤ i ∧ args.argqv i = none := by
    intro i
    simp only [AtArgs.point]
    split
    · simp [*]
    · split
      · simp [*]
      · exact ⟨fun h => ⟨by omega, h⟩, And.right⟩
  constructor
  · intro h
    refine ⟨h.copies, ?_⟩
    intro i hi h2 hnone
    exact h.pointers _ _ rfl (List.mem_map.2 ⟨i, List.mem_range.2 hi, (hset i).2 ⟨h2, hnone⟩⟩)
  · rintro ⟨hfit, hptr⟩
    refine ⟨hfit, by simp [AtArgs.look], ?_⟩
    rintro call reply hend hmem
    cases hend
    obtain ⟨i, hi, hnone⟩ := List.mem_map.1 hmem
    obtain ⟨h2, hnone⟩ := (hset i).1 hnone
    exact hptr i (List.mem_range.1 hi) h2 hnone

/-- An equals sign counts as one. -/
theorem argcLen_cons_equals (t : List UInt8) : argcLen (atEquals :: t) = argcLen t + 1 := by
  unfold argcLen
  rw [List.countP_cons_of_pos (by decide)]

/-- The separators that are not cut at. -/
theorem countP_other_eq_zero :
    (t.countP fun x => x = atQuestion ∨ x = atEquals) = 0 ↔ atQuestion ∉ t ∧ atEquals ∉ t := by
  rw [List.countP_eq_zero]
  constructor
  · intro h
    exact ⟨fun hq => h _ hq (by decide), fun he => h _ he (by decide)⟩
  · rintro ⟨hq, he⟩ x hx
    simpa using ⟨ne_of_mem_of_not_mem hx hq, ne_of_mem_of_not_mem hx he⟩

/-- The parameters of a line without another separator. -/
theorem atCmdParserDou_fields (hhcc : strchr atEquals data = some (atEquals :: t)) (h0 : 0 ∉ t)
    (hq : atQuestion ∉ t) (he : atEquals ∉ t) (hparts : t.splitOn atComma = f :: fs)
    (hnum : fs.length + 1 ≤ atMaxArgc - 2) (hlen : (atEquals :: t).length ≤ atMaxArgc * atMaxArgvLen) :
    atCmdParserDou args data = (fillFields args 2 (f :: fs)).look .execute (fs.length + 3) := by
  have hcount := length_splitOn atComma t
  rw [hparts, List.length_cons] at hcount
  have hother := countP_other_eq_zero.2 ⟨hq, he⟩
  have hargc : argcLen (atEquals :: t) = fs.length + 1 := by
    rw [argcLen_cons_equals, argcLen_eq, hother]
    omega
  have hself : strchr atEquals (atEquals :: t) = some (atEquals :: t) := strchr_append (u := []) (by simp)
  unfold atCmdParserDou
  rw [hhcc]
  simp only
  rw [hargc, if_neg (by omega), if_neg (by omega)]
  by_cases hone : fs.length + 1 = 1
  · have hnil : fs = [] := List.length_eq_zero_iff.1 (by omega)
    subst hnil
    have hnc : atComma ∉ t := by
      rw [← List.count_eq_zero]
      simp only [List.length_nil] at hcount
      omega
    rw [List.splitOn_eq_singleton hnc] at hparts
    rw [if_pos hone, charCut_eq (by decide) hself, List.tail_cons, upTo_of_not_mem h0,
      (List.cons.inj hparts).1]
    rfl
  · have hcons : (atEquals :: t).splitOn atComma = (atEquals :: f) :: fs := by
      rw [List.splitOn_cons_eq_if_modifyHead, hparts]
      rfl
    rw [if_neg hone, charCut_eq (by decide) hself, Option.getD_some, List.tail_cons,
      upTo_of_splitOn hparts, Nat.add_sub_cancel, cutFields_fields hcons]
    rfl

/-- **The parameters.** -/
theorem inBounds_atCmdParserDou (hargs : CopiesFit args) (h0 : 0 ∉ data)
    (hhcc : strchr atEquals data = some hcc) :
    InBounds (atCmdParserDou args data) ↔ ParamsFit hcc := by
  obtain ⟨u, t, rfl, -, rfl⟩ := strchr_some hhcc
  have h0t : 0 ∉ t := fun h => h0 (by simp [h])
  by_cases hguard : atMaxArgc - 2 < argcLen (atEquals :: t) ∨
      atMaxArgc * atMaxArgvLen < (atEquals :: t).length
  · have hrefused : atCmdParserDou args (u ++ atEquals :: t) = (args, .refused) := by
      unfold atCmdParserDou
      rw [hhcc]
      simp only
      rw [if_pos hguard]
    rw [hrefused, inBounds_refused]
    refine iff_of_true hargs ?_
    intro hnum hlen
    omega
  · by_cases hother : atQuestion ∉ t ∧ atEquals ∉ t
    · obtain ⟨f, fs, hparts⟩ := List.exists_cons_of_ne_nil (List.splitOn_ne_nil atComma t)
      have hcount := length_splitOn atComma t
      have hzero := countP_other_eq_zero.2 hother
      rw [argcLen_cons_equals, argcLen_eq] at hguard
      rw [hparts, List.length_cons] at hcount
      rw [atCmdParserDou_fields hhcc h0t hother.1 hother.2 hparts (by omega) (by omega), inBounds_look,
        copiesFit_fillFields (by simp only [List.length_cons, atMaxArgc] at hguard ⊢; omega)]
      unfold ParamsFit
      rw [List.tail_cons, hparts]
      constructor
      · rintro ⟨⟨-, hfit⟩, -⟩ - -
        exact ⟨hother.1, hother.2, hfit⟩
      · intro h
        have hfit := (h (by rw [argcLen_cons_equals, argcLen_eq]; omega) (by omega)).2.2
        refine ⟨⟨hargs, hfit⟩, ?_⟩
        intro i hi h2
        rw [argqv_fillFields, if_pos ⟨h2, by rw [List.length_cons]; omega⟩]
        simp
    · have hpos : 0 < t.countP fun x => x = atQuestion ∨ x = atEquals := by
        rw [Nat.pos_iff_ne_zero]
        exact fun h => hother (countP_other_eq_zero.1 h)
      have hargc : argcLen (atEquals :: t) =
          t.count atComma + (t.countP fun x => x = atQuestion ∨ x = atEquals) + 1 := by
        rw [argcLen_cons_equals, argcLen_eq]
      have hnull : (atCmdParserDou args (u ++ atEquals :: t)).2 = .nullDeref := by
        unfold atCmdParserDou
        rw [hhcc]
        simp only
        rw [if_neg hguard, if_neg (by omega), if_neg (by omega)]
        split
        case h_1 => rfl
        case h_2 hcut =>
          have hfalse : ((((args.charCut 2 (atEquals :: t) atEquals atComma).getD args).point 2).cutFields
              (atEquals :: t) 1 (argcLen (atEquals :: t) - 1)).2 = false :=
            cutFields_null (by rw [List.count_cons_of_ne (by decide)]; omega)
          rw [hcut] at hfalse
          exact absurd hfalse (by simp)
      refine iff_of_false (fun h => h.notNull hnull) ?_
      intro h
      obtain ⟨hq, he, -⟩ := h (by omega) (by omega)
      exact hother ⟨hq, he⟩

/-- Copies are only added. -/
theorem mem_copies_charCut {b e : UInt8} {w : ℕ × List UInt8} (hw : w ∈ args.copies) :
    w ∈ ((args.charCut k t b e).getD args).copies := by
  unfold AtArgs.charCut
  split
  · exact hw
  · split
    · exact hw
    · exact List.mem_append_left _ hw

/-- Cutting fields keeps the copies that were made. -/
theorem mem_copies_cutFields {w : ℕ × List UInt8} {i n : ℕ} (hw : w ∈ args.copies) :
    w ∈ (args.cutFields hcc i n).1.copies := by
  induction n generalizing args hcc i with
  | zero => exact hw
  | succ n ih =>
    rw [AtArgs.cutFields]
    split
    · exact hw
    · exact ih (mem_copies_charCut hw)

/-- So does the rest of the parser. -/
theorem mem_copies_atCmdParserDou {w : ℕ × List UInt8} (hw : w ∈ args.copies) :
    w ∈ (atCmdParserDou args data).1.copies := by
  unfold atCmdParserDou
  split
  · exact hw
  · rename_i hcc _
    simp only
    split
    · exact hw
    · split
      · exact hw
      · split
        · exact mem_copies_charCut hw
        · have hcut : w ∈ ((((args.charCut 2 hcc atEquals atComma).getD args).point 2).cutFields hcc 1
              (argcLen hcc - 1)).1.copies := mem_copies_cutFields (mem_copies_charCut hw)
          split
          · rename_i h
            rwa [h] at hcut
          · rename_i h
            rwa [h] at hcut

/-- A line with a name alone. -/
theorem inBounds_name {b e : UInt8} {type : AtOp} (hb : b ≠ 0) :
    InBounds (match AtArgs.init.charCut 1 data b e with
      | none => (AtArgs.init, .refused)
      | some args => args.look type 2) ↔ ∀ s, strchr b data = some s → PartFits (upTo e s.tail) := by
  by_cases hmem : b ∈ data
  · obtain ⟨u, t, rfl, hu⟩ := List.eq_append_cons_of_mem hmem
    have hfound : strchr b (u ++ b :: t) = some (b :: t) := strchr_append hu
    rw [charCut_eq hb hfound, hfound]
    simp only
    rw [inBounds_look, copiesFit_copy]
    constructor
    · rintro ⟨⟨-, -, hfit⟩, -⟩ s hs
      cases hs
      exact hfit
    · intro h
      exact ⟨⟨copiesFit_init, by decide, h _ rfl⟩, by omega⟩
  · rw [charCut_of_not_mem hmem, strchr_of_not_mem hmem]
    exact iff_of_true (inBounds_refused.2 copiesFit_init) (by simp)

/-- A line with parameters. -/
theorem inBounds_params (h0 : 0 ∉ data) :
    InBounds (match AtArgs.init.charCut 1 data atPlus atEquals with
      | none => (AtArgs.init, .refused)
      | some args => atCmdParserDou args data) ↔
    ∀ s, strchr atPlus data = some s →
      PartFits (upTo atEquals s.tail) ∧ ∃ hcc, strchr atEquals data = some hcc ∧ ParamsFit hcc := by
  by_cases hmem : atPlus ∈ data
  · obtain ⟨u, t, rfl, hu⟩ := List.eq_append_cons_of_mem hmem
    have hfound : strchr atPlus (u ++ atPlus :: t) = some (atPlus :: t) := strchr_append hu
    rw [charCut_eq (by decide) hfound, hfound]
    simp only
    by_cases hname : PartFits (upTo atEquals t)
    · have hrow : 1 < atMaxArgc := by decide
      have hargs := copiesFit_copy.2 ⟨copiesFit_init, hrow, hname⟩
      constructor
      · intro h s hs
        cases hs
        refine ⟨hname, ?_⟩
        obtain hnone | ⟨hcc, hhcc⟩ := Option.eq_none_or_eq_some (strchr atEquals (u ++ atPlus :: t))
        · unfold atCmdParserDou at h
          rw [hnone] at h
          exact absurd h not_inBounds_nullDeref
        · exact ⟨hcc, hhcc, (inBounds_atCmdParserDou hargs h0 hhcc).1 h⟩
      · intro h
        obtain ⟨-, hcc, hhcc, hfit⟩ := h _ rfl
        exact (inBounds_atCmdParserDou hargs h0 hhcc).2 hfit
    · refine iff_of_false ?_ fun h => hname (h _ rfl).1
      intro h
      have hargs : CopiesFit (AtArgs.init.copy 1 (upTo atEquals t ++ [0])) :=
        fun w hw => h.copies w (mem_copies_atCmdParserDou hw)
      exact hname (copiesFit_copy.1 hargs).2.2
  · rw [charCut_of_not_mem hmem, strchr_of_not_mem hmem]
    exact iff_of_true (inBounds_refused.2 copiesFit_init) (by simp)

/-- A lookup of what follows the last `+`. -/
theorem inBounds_find :
    InBounds (match strrchr atPlus data with
      | none => (AtArgs.init, .nullDeref)
      | some hcc => (AtArgs.init.copy 1 (strChr atEquals hcc.tail).1).look .hlookup 2) ↔
    ∃ s, strrchr atPlus data = some s ∧ PartFits (upTo atEquals s.tail) := by
  split
  case h_1 hnone =>
    refine iff_of_false not_inBounds_nullDeref ?_
    rintro ⟨s, hs, -⟩
    rw [hnone] at hs
    exact absurd hs (by simp)
  case h_2 hcc hsome =>
    rw [strChr_eq, inBounds_look, copiesFit_copy]
    constructor
    · rintro ⟨⟨-, -, hfit⟩, -⟩
      exact ⟨hcc, hsome, hfit⟩
    · rintro ⟨s, hs, hfit⟩
      rw [hsome] at hs
      cases hs
      exact ⟨⟨copiesFit_init, by decide, hfit⟩, by omega⟩

/-- **The line parser.** It keeps to its rows, reads through no NULL and looks up no pointer that was never
set exactly on the lines that it is made for. -/
theorem parser_in_bounds_iff (line : CString) :
    InBounds (genieAtCmdParser line) ↔ AtFits line.chars := by
  unfold genieAtCmdParser AtFits
  by_cases hat : isAtCmd line.chars = true
  case neg =>
    simp only
    rw [if_pos (by simpa using hat), inBounds_refused]
    exact iff_of_true copiesFit_init fun h => absurd h hat
  simp only
  rw [if_neg (by simp [hat]), forall_prop_of_true hat]
  generalize argvType line.chars = ustype
  by_cases hnone : ustype = atCmdNoAdd
  · subst hnone
    refine iff_of_true ⟨copiesFit_init, by simp, ?_⟩
      (by simp [atCmdNoAdd, atCmdAdd, atCmdQuery, atCmdDou, atCmdFind])
    rintro call reply hend
    cases hend
    exact List.not_mem_nil
  rw [if_neg hnone]
  by_cases hadd : ustype = atCmdAdd
  · subst hadd
    have hwhole : ∀ s, strchr atPlus line.chars = some s → upTo 0 s.tail = s.tail := by
      intro s hs
      obtain ⟨u, t, hline, -, rfl⟩ := strchr_some hs
      refine upTo_of_not_mem fun h => line.noNul ?_
      rw [hline]
      exact List.mem_append_right _ (List.mem_cons_of_mem _ h)
    rw [if_pos rfl]
    refine (inBounds_name (b := atPlus) (e := 0) (by decide)).trans ?_
    simp only [atCmdAdd, atCmdQuery, atCmdDou, atCmdFind, forall_const, false_implies,
      Nat.reduceEqDiff, and_true]
    exact forall₂_congr fun s hs => by rw [hwhole s hs]
  rw [if_neg hadd]
  by_cases hquery : ustype = atCmdQuery
  · subst hquery
    rw [if_pos rfl]
    refine (inBounds_name (b := atPlus) (e := atQuestion) (by decide)).trans ?_
    simp [atCmdAdd, atCmdQuery, atCmdDou, atCmdFind]
  rw [if_neg hquery]
  by_cases hdou : ustype = atCmdDou
  · subst hdou
    rw [if_pos rfl]
    refine (inBounds_params line.noNul).trans ?_
    simp [atCmdAdd, atCmdQuery, atCmdDou, atCmdFind]
  rw [if_neg hdou]
  by_cases hfind : ustype = atCmdFind
  · subst hfind
    rw [if_pos rfl]
    refine inBounds_find.trans ?_
    simp [atCmdAdd, atCmdQuery, atCmdDou, atCmdFind]
  · rw [if_neg hfind, inBounds_refused]
    exact iff_of_true copiesFit_init (by simp [hadd, hquery, hdou, hfind])

/-- A name of 40 characters runs over the end of its row. -/
theorem long_name_overruns : ∃ line : CString,
    line.chars = ascii "AT+" ++ List.replicate 40 0x41 ∧ ¬ InBounds (genieAtCmdParser line) := by
  refine ⟨⟨ascii "AT+" ++ List.replicate 40 0x41, by decide⟩, rfl, ?_⟩
  intro h
  exact absurd (h.copies (1, List.replicate 40 0x41 ++ [0]) (by decide +kernel)).2 (by decide)

end Bounds

/-! ## The parameters of a command -/

/-- The rows from 1 on hold the strings `fs`. -/
def RowsHold (args : AtArgs) (fs : List (List UInt8)) : Prop :=
  ∀ i < fs.length, Stands args.argv (atMaxArgvLen * (i + 1)) (fs.getD i [] ++ [0])

/-- What a parser that ends with a lookup does with it. -/
def replyOf (r : AtArgs × AtEnd) : Option AtReply :=
  match r.2 with
  | .looked _ reply => some reply
  | _ => none

section Params

variable {args : AtArgs} {m : Mem} {pos n i : ℕ} {s f : List UInt8} {fs gs : List (List UInt8)}
  {cmd : AtCmd}

/-- A string that stands in memory is read as it is. -/
theorem cString_eq (h : Stands m pos (s ++ [0])) (h0 : 0 ∉ s) (hn : s.length < n) :
    cString m pos n = s := by
  induction s generalizing pos n with
  | nil =>
    obtain ⟨n, rfl⟩ := Nat.exists_eq_succ_of_ne_zero (Nat.ne_of_gt hn)
    rw [cString, if_pos (stands_singleton.1 h)]
  | cons x s ih =>
    obtain ⟨n, rfl⟩ := Nat.exists_eq_succ_of_ne_zero (Nat.ne_of_gt (Nat.zero_lt_of_lt hn))
    obtain ⟨hx, hs⟩ := not_or.1 (List.mem_cons.not.1 h0)
    rw [List.cons_append, stands_cons] at h
    rw [cString, h.1, if_neg (Ne.symm hx), ih h.2 hs (Nat.lt_of_succ_lt_succ hn)]

/-- The row after those that are filled. -/
theorem RowsHold.copy (h : RowsHold args fs) (hfs : ∀ g ∈ fs, PartFits g) :
    RowsHold ((args.copy (fs.length + 1) (f ++ [0])).point (fs.length + 1)) (fs ++ [f]) := by
  intro i hi
  rw [List.length_append, List.length_singleton] at hi
  rcases Nat.lt_succ_iff_lt_or_eq.1 hi with hlt | rfl
  · rw [List.getD_append _ _ _ _ hlt]
    apply (h i hlt).write
    have hfits : PartFits (fs.getD i []) := by
      rw [List.getD_eq_getElem _ _ hlt]
      exact hfs _ (List.getElem_mem hlt)
    unfold PartFits at hfits
    simp only [List.length_append, List.length_singleton, atMaxArgvLen] at hfits ⊢
    omega
  · rw [List.getD_append_right _ _ _ _ (Nat.le_refl _), Nat.sub_self]
    exact stands_write

/-- More fields are put into the rows behind those that are held. -/
theorem rowsHold_fillFields (h : RowsHold args fs) (hfs : ∀ g ∈ fs, PartFits g)
    (hgs : ∀ g ∈ gs, PartFits g) : RowsHold (fillFields args (fs.length + 1) gs) (fs ++ gs) := by
  induction gs generalizing args fs with
  | nil => simpa [fillFields] using h
  | cons g gs ih =>
    rw [fillFields, List.append_cons fs g gs]
    have hfs' : ∀ x ∈ fs ++ [g], PartFits x := by
      intro x hx
      rcases List.mem_append.1 hx with hx | hx
      · exact hfs x hx
      · exact hgs x (by simp [List.mem_singleton.1 hx])
    have hnext := ih (h.copy hfs) hfs' fun x hx => hgs x (List.mem_cons_of_mem _ hx)
    rwa [List.length_append, List.length_singleton] at hnext

/-- The string of a row is its field. -/
theorem rowString_eq (h : RowsHold args fs) (hi : i < fs.length) (hmax : fs.length < atMaxArgc)
    (hfits : PartFits (fs.getD i [])) (h0 : 0 ∉ fs.getD i []) :
    rowString args.argv (i + 1) = fs.getD i [] := by
  apply cString_eq (h i hi) h0
  unfold PartFits at hfits
  simp only [atMaxArgvLen, atMaxArgc] at *
  omega

/-- The names are all different. -/
theorem find_cmdName (hcmd : cmd ∈ genieAtCommands) :
    (genieAtCommands.find? fun c => some cmd.cmdName = some c.cmdName) = some cmd := by
  revert cmd
  decide +kernel

/-- What a name in the table is made of. -/
theorem cmdName_chars (hcmd : cmd ∈ genieAtCommands) : atPlus ∉ cmd.cmdName ∧ atEquals ∉ cmd.cmdName ∧
    atQuestion ∉ cmd.cmdName ∧ 0 ∉ cmd.cmdName ∧ PartFits cmd.cmdName := by
  unfold PartFits
  revert cmd
  decide +kernel

/-- A character of the parameters. -/
theorem mem_intercalate {x : UInt8} (h : x ∈ [atComma].intercalate fs) : x = atComma ∨ ∃ f ∈ fs, x ∈ f := by
  induction fs with
  | nil => exact absurd h (by simp)
  | cons f fs ih =>
    cases fs with
    | nil => exact Or.inr ⟨f, List.mem_singleton_self f, by simpa using h⟩
    | cons g gs =>
      rw [List.intercalate_cons_cons, List.mem_append, List.mem_append] at h
      rcases h with (hf | hc) | hrest
      · exact Or.inr ⟨f, List.mem_cons_self, hf⟩
      · exact Or.inl (List.mem_singleton.1 hc)
      · rcases ih hrest with hc | ⟨f', hf', hx⟩
        · exact Or.inl hc
        · exact Or.inr ⟨f', List.mem_cons_of_mem f hf', hx⟩

/-- A character of a field is one of the line. -/
theorem mem_intercalate_of_mem {x : UInt8} (hf : f ∈ fs) (hx : x ∈ f) : x ∈ [atComma].intercalate fs := by
  induction fs with
  | nil => exact absurd hf (by simp)
  | cons g fs ih =>
    cases fs with
    | nil => simpa [List.mem_singleton.1 hf] using hx
    | cons g' gs =>
      rw [List.intercalate_cons_cons, List.mem_append, List.mem_append]
      rcases List.mem_cons.1 hf with rfl | hf
      · exact Or.inl (Or.inl hx)
      · exact Or.inr (ih hf)

/-- A line is as long as its fields allow. -/
theorem length_intercalate (hfs : ∀ f ∈ fs, PartFits f) :
    ([atComma].intercalate fs).length ≤ atMaxArgvLen * fs.length := by
  induction fs with
  | nil => simp
  | cons f fs ih =>
    have hf : f.length < atMaxArgvLen := hfs f List.mem_cons_self
    have hrest := ih fun g hg => hfs g (List.mem_cons_of_mem f hg)
    cases fs with
    | nil =>
      simp only [List.intercalate_singleton, List.length_singleton, Nat.mul_one]
      exact Nat.le_of_lt hf
    | cons g gs =>
      rw [List.intercalate_cons_cons, List.length_append, List.length_append, List.length_singleton,
        List.length_cons (a := f), Nat.mul_succ]
      omega

/-- Characters without a meaning do not change the type of a line. -/
theorem argvTypeLoop_append {a b c : Bool} (hp : atPlus ∉ s) (he : atEquals ∉ s) (hq : atQuestion ∉ s)
    (t : List UInt8) : argvTypeLoop a b c (s ++ t) = argvTypeLoop a b c t := by
  induction s with
  | nil => rfl
  | cons x s ih =>
    obtain ⟨hxp, hp⟩ := not_or.1 (List.mem_cons.not.1 hp)
    obtain ⟨hxe, he⟩ := not_or.1 (List.mem_cons.not.1 he)
    obtain ⟨hxq, hq⟩ := not_or.1 (List.mem_cons.not.1 hq)
    rw [List.cons_append, argvTypeLoop.eq_def]
    simp only
    rw [if_neg (Ne.symm hxp), if_neg (Ne.symm hxe), if_neg (Ne.symm hxq), ih hp he hq]

/-- A line with a name and parameters. -/
theorem argvType_params {x : UInt8} (hp : atPlus ∉ s) (he : atEquals ∉ s) (hq : atQuestion ∉ s)
    (hx : x ≠ atQuestion) : argvType (ascii "AT+" ++ s ++ atEquals :: x :: f) = atCmdDou := by
  have hat : ascii "AT+" = [0x41, 0x54] ++ [atPlus] := by decide
  unfold argvType
  rw [hat, List.append_assoc, List.append_assoc,
    argvTypeLoop_append (by decide) (by decide) (by decide), List.singleton_append, argvTypeLoop.eq_def]
  simp only
  rw [if_pos trivial, argvTypeLoop_append hp he hq, argvTypeLoop.eq_def]
  simp only
  rw [if_neg (by decide), if_pos trivial, if_neg hx]

/-- The lookup when all rows are filled. -/
theorem replyOf_look (hcmd : cmd ∈ genieAtCommands) (h : RowsHold args (cmd.cmdName :: fs))
    (hmax : fs.length + 1 < atMaxArgc) (hfs : ∀ f ∈ cmd.cmdName :: fs, PartFits f ∧ 0 ∉ f)
    (hptr : ∀ i, 2 ≤ i → i < fs.length + 2 → args.argqv i = some i) :
    replyOf (args.look .execute (fs.length + 2)) =
      some (callAtFunc cmd.cb (fs.length + 1) ((cmd.cmdName :: fs).map some)) := by
  have hset : ∀ i < fs.length + 2, ((args.point 0).point 1).argqv i = some i := by
    intro i hi
    simp only [AtArgs.point]
    split
    · simp [*]
    · split
      · simp [*]
      · exact hptr i (by omega) hi
  have hpointers : (List.range (fs.length + 2)).map ((args.point 0).point 1).argqv =
      (List.range (fs.length + 2)).map some :=
    List.map_congr_left fun i hi => hset i (List.mem_range.1 hi)
  have hstrings : (List.range (fs.length + 1)).map (fun i => some (rowString args.argv (i + 1))) =
      (cmd.cmdName :: fs).map some := by
    apply List.ext_getElem (by simp)
    intro i hi hi'
    rw [List.length_map] at hi'
    have hgetD := List.getD_eq_getElem (cmd.cmdName :: fs) [] hi'
    obtain ⟨hfits, h0⟩ := hfs _ (List.getElem_mem hi')
    rw [List.getElem_map, List.getElem_map, List.getElem_range,
      rowString_eq h hi' hmax (by rwa [hgetD]) (by rwa [hgetD]), hgetD]
  have hargs : ((List.range (fs.length + 2)).map some).map (Option.map (rowString args.argv)) =
      some (rowString args.argv 0) :: (cmd.cmdName :: fs).map some := by
    rw [List.range_succ_eq_map, ← hstrings]
    simp [Function.comp_def]
  unfold AtArgs.look replyOf
  simp only
  unfold cmdCliFunc
  simp only
  rw [if_neg (by omega), hpointers]
  have hmem : ((args.point 0).point 1).argv = args.argv := rfl
  rw [hmem, hargs, List.map_cons, List.getD_cons_succ, List.getD_cons_zero, find_cmdName hcmd]
  rfl

/-- **The parameters of a command.** A line with one to eight parameters goes to the handler of its command
with exactly these. Where the table has no handler for it, the answer is that nothing was found. -/
theorem at_parameters_split {cmd : AtCmd} (hcmd : cmd ∈ genieAtCommands) {fs : List (List UInt8)}
    (hmin : 1 ≤ fs.length) (hmax : fs.length ≤ atMaxArgc - 2)
    (hfs : ∀ f ∈ fs, atComma ∉ f ∧ atEquals ∉ f ∧ atQuestion ∉ f ∧ f.length < atMaxArgvLen)
    (hone : fs ≠ [[]]) (line : CString)
    (hline : line.chars = ascii "AT+" ++ cmd.cmdName ++ atEquals :: [atComma].intercalate fs) :
    replyOf (genieAtCmdParser line) = some (match cmd.cb with
      | some func => .called func (fs.length + 1) ((cmd.cmdName :: fs).map some)
      | none => .notFound) := by
  obtain ⟨hp, he, hq, h0, hname⟩ := cmdName_chars hcmd
  have hfits : ∀ f ∈ fs, PartFits f := fun f hf => (hfs f hf).2.2.2
  have hnul : 0 ∉ [atComma].intercalate fs := by
    intro h
    apply line.noNul
    rw [hline]
    exact List.mem_append_right _ (List.mem_cons_of_mem _ h)
  have hq' : atQuestion ∉ [atComma].intercalate fs := by
    intro h
    rcases mem_intercalate h with hc | ⟨f, hf, hx⟩
    · exact absurd hc (by decide)
    · exact (hfs f hf).2.2.1 hx
  have he' : atEquals ∉ [atComma].intercalate fs := by
    intro h
    rcases mem_intercalate h with hc | ⟨f, hf, hx⟩
    · exact absurd hc (by decide)
    · exact (hfs f hf).2.1 hx
  have hsplit : ([atComma].intercalate fs).splitOn atComma = fs :=
    List.splitOn_intercalate atComma (fun f hf => (hfs f hf).1) (List.ne_nil_of_length_pos hmin)
  have hlen := length_intercalate hfits
  have hnul' : ∀ f ∈ fs, 0 ∉ f := fun f hf h => hnul (mem_intercalate_of_mem hf h)
  generalize [atComma].intercalate fs = params at *
  obtain ⟨x, params, rfl⟩ : ∃ x rest, params = x :: rest := by
    cases params with
    | nil => exact absurd hsplit.symm (by simpa using hone)
    | cons x rest => exact ⟨x, rest, rfl⟩
  have htype : argvType line.chars = atCmdDou := by
    rw [hline]
    exact argvType_params hp he hq fun h => hq' (by simp [h])
  have hplus : strchr atPlus line.chars = some (atPlus :: (cmd.cmdName ++ atEquals :: x :: params)) := by
    rw [hline]
    exact strchr_append (u := ascii "AT") (by decide)
  have hequals : strchr atEquals line.chars = some (atEquals :: x :: params) := by
    rw [hline]
    refine strchr_append ?_
    rw [List.mem_append]
    exact not_or.2 ⟨by decide, he⟩
  have hat : isAtCmd line.chars = true := by
    rw [hline]
    rfl
  obtain ⟨f, gs, rfl⟩ := List.exists_cons_of_ne_nil (List.ne_nil_of_length_pos hmin)
  have hrows : RowsHold (AtArgs.init.copy 1 (cmd.cmdName ++ [0])) [cmd.cmdName] := by
    intro i hi
    obtain rfl : i = 0 := by simpa using hi
    exact stands_write
  unfold genieAtCmdParser
  simp only
  rw [if_neg (by simp [hat]), htype, if_neg (by decide), if_neg (by decide), if_neg (by decide), if_pos rfl,
    charCut_eq (by decide) hplus, List.tail_cons, upTo_append he]
  simp only
  rw [atCmdParserDou_fields hequals hnul hq' he' hsplit (by simpa using hmax)
    (by simp only [List.length_cons, atMaxArgvLen, atMaxArgc] at *; omega)]
  change replyOf ((fillFields _ 2 (f :: gs)).look .execute ((f :: gs).length + 2)) = _
  refine (replyOf_look hcmd ?_ ?_ ?_ ?_).trans ?_
  · exact rowsHold_fillFields hrows (by simpa using hname) hfits
  · simp only [List.length_cons, atMaxArgc] at *
    omega
  · intro g hg
    rcases List.mem_cons.1 hg with rfl | hg
    · exact ⟨hname, h0⟩
    · exact ⟨hfits g hg, hnul' g hg⟩
  · intro i h2 hi
    rw [argqv_fillFields, if_pos ⟨h2, by omega⟩]
  · cases cmd.cb <;> rfl

/-- `AT+MESHTEST=01,,22` -/
theorem at_parameters_split_three : ∃ line : CString, line.chars = ascii "AT+MESHTEST=01,,22" ∧
    replyOf (genieAtCmdParser line) =
      some (.called .meshTest 4 [some (ascii "MESHTEST"), some (ascii "01"), some [], some (ascii "22")]) :=
  ⟨⟨ascii "AT+MESHTEST=01,,22", by decide⟩, rfl,
    at_parameters_split
      (show (⟨ascii "MESHTEST", some .meshTest, ascii "AT+MESHTEST=<opcode>,[param]", none⟩ : AtCmd) ∈
        genieAtCommands by decide +kernel)
      (show 1 ≤ [ascii "01", [], ascii "22"].length by decide) (by decide) (by decide +kernel) (by decide)
      ⟨ascii "AT+MESHTEST=01,,22", by decide⟩ (by decide)⟩

/-- `AT+MESHINF=1` is answered without a call: the command has a query handler alone. -/
theorem info_not_executed : ∃ line : CString, ∃ cmd ∈ genieAtCommands,
    line.chars = ascii "AT+" ++ cmd.cmdName ++ atEquals :: [atComma].intercalate [ascii "1"] ∧
      replyOf (genieAtCmdParser line) = some .notFound :=
  ⟨⟨ascii "AT+MESHINF=1", by decide⟩,
    ⟨ascii "MESHINF", none, ascii "AT+MESHINF", some .meshInfo⟩, by decide +kernel, by decide,
    by decide +kernel⟩

end Params

end GenieSdk.Analysis.At
