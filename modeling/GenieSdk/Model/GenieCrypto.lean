import GenieSdk.Lib.Bytes

/-!
# Keys of the AIS service

`genie_crypto.c`: the session key is a hash of the peer's random and the device's triple, formatted
as text. SHA-256 and AES are parameters.
-/

set_option autoImplicit false

namespace GenieSdk.Model

/-- `genie_triple_t` -/
structure GenieTriple where
  pid : UInt32
  key : Vector UInt8 16
  mac : Vector UInt8 6
  deriving DecidableEq

/-- A digit of `%x`. -/
def hexDigit (n : ℕ) : UInt8 := if n < 10 then UInt8.ofNat (48 + n) else UInt8.ofNat (87 + n)

/-- `%02x` -/
def hexByte (b : UInt8) : List UInt8 := [hexDigit (b.toNat / 16), hexDigit (b.toNat % 16)]

/-- SRCLINE: log.c:105-115 -/
def hextostring (source : List UInt8) : List UInt8 := source.flatMap hexByte

/-- The bytes of a 32-bit number, the most significant first. -/
def beBytes32 (n : UInt32) : List UInt8 :=
  [UInt8.ofNat (n.toNat / 2 ^ 24), UInt8.ofNat (n.toNat / 2 ^ 16 % 2 ^ 8),
    UInt8.ofNat (n.toNat / 2 ^ 8 % 2 ^ 8), UInt8.ofNat (n.toNat % 2 ^ 8)]

/-- `','` -/
def comma : UInt8 := 44

/-- What `sprintf(..., ",%08lx,%s,%s", ...)` prints. SRCLINE: genie_crypto.c:121 -/
def tripleText (t : GenieTriple) : List UInt8 :=
  [comma] ++ hextostring (beBytes32 t.pid) ++ [comma] ++ hextostring t.mac.toList ++ [comma] ++
    hextostring t.key.toList

/-- `strlen` bytes of `static_str`: the string ends at the first zero byte.
SRCLINE: genie_crypto.c:120-121, 134 -/
def cipherInput (random : Vector UInt8 16) (t : GenieTriple) : List UInt8 :=
  (random.toList ++ tripleText t).takeWhile (· ≠ 0)

/-- `aes_iv`, with which a block is combined before it is encrypted. -/
def aesIv : List UInt8 :=
  [0x31, 0x32, 0x33, 0x61, 0x71, 0x77, 0x65, 0x64, 0x23, 0x2a, 0x24, 0x21, 0x28, 0x34, 0x6a, 0x75]

/-- `bt_mesh_aes_encrypt`, `bt_mesh_aes_decrypt`, which may fail, and SHA-256. -/
structure Crypto where
  sha256 : List UInt8 → List UInt8
  aesEncrypt : List UInt8 → List UInt8 → List UInt8
  aesDecrypt : List UInt8 → List UInt8 → Option (List UInt8)

/-- SRCLINE: genie_crypto.c:75-90 -/
def genieCryptoEncrypt (c : Crypto) (bleKey dataIn : List UInt8) : List UInt8 :=
  c.aesEncrypt bleKey (List.zipWith (· ^^^ ·) dataIn aesIv)

/-- SRCLINE: genie_crypto.c:92-106 -/
def genieCryptoDecrypt (c : Crypto) (bleKey dataIn : List UInt8) : Option (List UInt8) :=
  (c.aesDecrypt bleKey dataIn).map fun out => List.zipWith (· ^^^ ·) out aesIv

/-- The new `g_ble_key` and the cipher. SRCLINE: genie_crypto.c:108-152 -/
def genieAisGetCipher (c : Crypto) (t : GenieTriple) (random : Vector UInt8 16) :
    List UInt8 × List UInt8 :=
  let bleKey := c.sha256 (cipherInput random t)
  (bleKey, genieCryptoEncrypt c bleKey random.toList)

end GenieSdk.Model
