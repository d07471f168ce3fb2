import GenieSdk.Lib.Blocks
import GenieSdk.Model.GenieCrypto

/-!
# AES-128

`aes_encrypt.c` and `aes_decrypt.c` of tinycrypt, with `bt_encrypt_be` and `bt_decrypt_be` on top of them. A block
is a list of 16 bytes, a key schedule a list of 44 words. The two files have an `add_round_key` each, which
are the same.
-/

set_option autoImplicit false

namespace GenieSdk.Model

open GenieSdk.Lib

/-- `sbox` -/
def sbox : List UInt8 :=
  [0x63, 0x7c, 0x77, 0x7b, 0xf2, 0x6b, 0x6f, 0xc5, 0x30, 0x01, 0x67, 0x2b, 0xfe, 0xd7, 0xab, 0x76,
    0xca, 0x82, 0xc9, 0x7d, 0xfa, 0x59, 0x47, 0xf0, 0xad, 0xd4, 0xa2, 0xaf, 0x9c, 0xa4, 0x72, 0xc0,
    0xb7, 0xfd, 0x93, 0x26, 0x36, 0x3f, 0xf7, 0xcc, 0x34, 0xa5, 0xe5, 0xf1, 0x71, 0xd8, 0x31, 0x15,
    0x04, 0xc7, 0x23, 0xc3, 0x18, 0x96, 0x05, 0x9a, 0x07, 0x12, 0x80, 0xe2, 0xeb, 0x27, 0xb2, 0x75,
    0x09, 0x83, 0x2c, 0x1a, 0x1b, 0x6e, 0x5a, 0xa0, 0x52, 0x3b, 0xd6, 0xb3, 0x29, 0xe3, 0x2f, 0x84,
    0x53, 0xd1, 0x00, 0xed, 0x20, 0xfc, 0xb1, 0x5b, 0x6a, 0xcb, 0xbe, 0x39, 0x4a, 0x4c, 0x58, 0xcf,
    0xd0, 0xef, 0xaa, 0xfb, 0x43, 0x4d, 0x33, 0x85, 0x45, 0xf9, 0x02, 0x7f, 0x50, 0x3c, 0x9f, 0xa8,
    0x51, 0xa3, 0x40, 0x8f, 0x92, 0x9d, 0x38, 0xf5, 0xbc, 0xb6, 0xda, 0x21, 0x10, 0xff, 0xf3, 0xd2,
    0xcd, 0x0c, 0x13, 0xec, 0x5f, 0x97, 0x44, 0x17, 0xc4, 0xa7, 0x7e, 0x3d, 0x64, 0x5d, 0x19, 0x73,
    0x60, 0x81, 0x4f, 0xdc, 0x22, 0x2a, 0x90, 0x88, 0x46, 0xee, 0xb8, 0x14, 0xde, 0x5e, 0x0b, 0xdb,
    0xe0, 0x32, 0x3a, 0x0a, 0x49, 0x06, 0x24, 0x5c, 0xc2, 0xd3, 0xac, 0x62, 0x91, 0x95, 0xe4, 0x79,
    0xe7, 0xc8, 0x37, 0x6d, 0x8d, 0xd5, 0x4e, 0xa9, 0x6c, 0x56, 0xf4, 0xea, 0x65, 0x7a, 0xae, 0x08,
    0xba, 0x78, 0x25, 0x2e, 0x1c, 0xa6, 0xb4, 0xc6, 0xe8, 0xdd, 0x74, 0x1f, 0x4b, 0xbd, 0x8b, 0x8a,
    0x70, 0x3e, 0xb5, 0x66, 0x48, 0x03, 0xf6, 0x0e, 0x61, 0x35, 0x57, 0xb9, 0x86, 0xc1, 0x1d, 0x9e,
    0xe1, 0xf8, 0x98, 0x11, 0x69, 0xd9, 0x8e, 0x94, 0x9b, 0x1e, 0x87, 0xe9, 0xce, 0x55, 0x28, 0xdf,
    0x8c, 0xa1, 0x89, 0x0d, 0xbf, 0xe6, 0x42, 0x68, 0x41, 0x99, 0x2d, 0x0f, 0xb0, 0x54, 0xbb, 0x16]

/-- `inv_sbox` -/
def invSbox : List UInt8 :=
  [0x52, 0x09, 0x6a, 0xd5, 0x30, 0x36, 0xa5, 0x38, 0xbf, 0x40, 0xa3, 0x9e, 0x81, 0xf3, 0xd7, 0xfb,
    0x7c, 0xe3, 0x39, 0x82, 0x9b, 0x2f, 0xff, 0x87, 0x34, 0x8e, 0x43, 0x44, 0xc4, 0xde, 0xe9, 0xcb,
    0x54, 0x7b, 0x94, 0x32, 0xa6, 0xc2, 0x23, 0x3d, 0xee, 0x4c, 0x95, 0x0b, 0x42, 0xfa, 0xc3, 0x4e,
    0x08, 0x2e, 0xa1, 0x66, 0x28, 0xd9, 0x24, 0xb2, 0x76, 0x5b, 0xa2, 0x49, 0x6d, 0x8b, 0xd1, 0x25,
    0x72, 0xf8, 0xf6, 0x64, 0x86, 0x68, 0x98, 0x16, 0xd4, 0xa4, 0x5c, 0xcc, 0x5d, 0x65, 0xb6, 0x92,
    0x6c, 0x70, 0x48, 0x50, 0xfd, 0xed, 0xb9, 0xda, 0x5e, 0x15, 0x46, 0x57, 0xa7, 0x8d, 0x9d, 0x84,
    0x90, 0xd8, 0xab, 0x00, 0x8c, 0xbc, 0xd3, 0x0a, 0xf7, 0xe4, 0x58, 0x05, 0xb8, 0xb3, 0x45, 0x06,
    0xd0, 0x2c, 0x1e, 0x8f, 0xca, 0x3f, 0x0f, 0x02, 0xc1, 0xaf, 0xbd, 0x03, 0x01, 0x13, 0x8a, 0x6b,
    0x3a, 0x91, 0x11, 0x41, 0x4f, 0x67, 0xdc, 0xea, 0x97, 0xf2, 0xcf, 0xce, 0xf0, 0xb4, 0xe6, 0x73,
    0x96, 0xac, 0x74, 0x22, 0xe7, 0xad, 0x35, 0x85, 0xe2, 0xf9, 0x37, 0xe8, 0x1c, 0x75, 0xdf, 0x6e,
    0x47, 0xf1, 0x1a, 0x71, 0x1d, 0x29, 0xc5, 0x89, 0x6f, 0xb7, 0x62, 0x0e, 0xaa, 0x18, 0xbe, 0x1b,
    0xfc, 0x56, 0x3e, 0x4b, 0xc6, 0xd2, 0x79, 0x20, 0x9a, 0xdb, 0xc0, 0xfe, 0x78, 0xcd, 0x5a, 0xf4,
    0x1f, 0xdd, 0xa8, 0x33, 0x88, 0x07, 0xc7, 0x31, 0xb1, 0x12, 0x10, 0x59, 0x27, 0x80, 0xec, 0x5f,
    0x60, 0x51, 0x7f, 0xa9, 0x19, 0xb5, 0x4a, 0x0d, 0x2d, 0xe5, 0x7a, 0x9f, 0x93, 0xc9, 0x9c, 0xef,
    0xa0, 0xe0, 0x3b, 0x4d, 0xae, 0x2a, 0xf5, 0xb0, 0xc8, 0xeb, 0xbb, 0x3c, 0x83, 0x53, 0x99, 0x61,
    0x17, 0x2b, 0x04, 0x7e, 0xba, 0x77, 0xd6, 0x26, 0xe1, 0x69, 0x14, 0x63, 0x55, 0x21, 0x0c, 0x7d]

/-- SRCLINE: utils.c:60-63 -/
def doubleByte (a : UInt8) : UInt8 := (a <<< 1) ^^^ ((a >>> 7) * 0x1b)

/-! ## The key schedule -/

def rotword (a : UInt32) : UInt32 := (a >>> 24) ||| (a <<< 8)

def subbyte (a o : UInt32) : UInt32 := (sbox.getD ((a >>> o) &&& 0xff).toNat 0).toUInt32 <<< o

def subword (a : UInt32) : UInt32 := subbyte a 24 ||| subbyte a 16 ||| subbyte a 8 ||| subbyte a 0

/-- `rconst` -/
def rconst : List UInt32 :=
  [0x00000000, 0x01000000, 0x02000000, 0x04000000, 0x08000000, 0x10000000, 0x20000000, 0x40000000, 0x80000000,
    0x1b000000, 0x36000000]

/-- A word of the key. -/
def keyWord (k : List UInt8) (i : ℕ) : UInt32 :=
  ((k.getD (4 * i) 0).toUInt32 <<< 24) ||| ((k.getD (4 * i + 1) 0).toUInt32 <<< 16) |||
    ((k.getD (4 * i + 2) 0).toUInt32 <<< 8) ||| (k.getD (4 * i + 3) 0).toUInt32

/-- The next word of the schedule. -/
def nextWord (words : List UInt32) (i : ℕ) : UInt32 :=
  let t := words.getD (i - 1) 0
  let t := if i % 4 = 0 then subword (rotword t) ^^^ rconst.getD (i / 4) 0 else t
  words.getD (i - 4) 0 ^^^ t

/-- SRCLINE: aes_encrypt.c:70-98 -/
def tcAes128SetEncryptKey (k : List UInt8) : List UInt32 :=
  (List.range' 4 40).foldl (fun words i => words ++ [nextWord words i]) ((List.range 4).map (keyWord k))

/-- SRCLINE: aes_decrypt.c:62-65 -/
def tcAes128SetDecryptKey (k : List UInt8) : List UInt32 := tcAes128SetEncryptKey k

def wordBytes (k : UInt32) : List UInt8 :=
  [(k >>> 24).toUInt8, (k >>> 16).toUInt8, (k >>> 8).toUInt8, k.toUInt8]

/-- `k` points to the first of four words. SRCLINE: aes_encrypt.c:100-110 -/
def addRoundKey (s : List UInt8) (k : List UInt32) : List UInt8 := xorBytes s ((k.take 4).flatMap wordBytes)

/-! ## Encryption -/

/-- SRCLINE: aes_encrypt.c:112-119 -/
def subBytes (s : List UInt8) : List UInt8 := s.map fun a => sbox.getD a.toNat 0

def triple (a : UInt8) : UInt8 := doubleByte a ^^^ a

/-- SRCLINE: aes_encrypt.c:123-129 -/
def multRowColumn (a b c d : UInt8) : List UInt8 :=
  [doubleByte a ^^^ triple b ^^^ c ^^^ d, a ^^^ doubleByte b ^^^ triple c ^^^ d,
    a ^^^ b ^^^ doubleByte c ^^^ triple d, triple a ^^^ b ^^^ c ^^^ doubleByte d]

/-- A map of columns on the four columns of a block. -/
def onColumns (f : UInt8 → UInt8 → UInt8 → UInt8 → List UInt8) (s : List UInt8) : List UInt8 :=
  (List.range 4).flatMap fun i =>
    f (s.getD (4 * i) 0) (s.getD (4 * i + 1) 0) (s.getD (4 * i + 2) 0) (s.getD (4 * i + 3) 0)

/-- SRCLINE: aes_encrypt.c:131-140 -/
def mixColumns (s : List UInt8) : List UInt8 := onColumns multRowColumn s

/-- SRCLINE: aes_encrypt.c:146-155 -/
def shiftRows (s : List UInt8) : List UInt8 :=
  [0, 5, 10, 15, 4, 9, 14, 3, 8, 13, 2, 7, 12, 1, 6, 11].map fun i => s.getD i 0

/-- SRCLINE: aes_encrypt.c:157-191 -/
def tcAesEncrypt (block : List UInt8) (s : List UInt32) : List UInt8 :=
  let state := addRoundKey block s
  let state := (List.range 9).foldl (fun state i =>
    addRoundKey (mixColumns (shiftRows (subBytes state))) (s.drop (4 * (i + 1)))) state
  addRoundKey (shiftRows (subBytes state)) (s.drop 40)

/-! ## Decryption -/

def mult8 (a : UInt8) : UInt8 := doubleByte (doubleByte (doubleByte a))

def mult9 (a : UInt8) : UInt8 := mult8 a ^^^ a

def multb (a : UInt8) : UInt8 := mult8 a ^^^ doubleByte a ^^^ a

def multd (a : UInt8) : UInt8 := mult8 a ^^^ doubleByte (doubleByte a) ^^^ a

def multe (a : UInt8) : UInt8 := mult8 a ^^^ doubleByte (doubleByte a) ^^^ doubleByte a

/-- `mult_row_column` of the decryption. SRCLINE: aes_decrypt.c:73-79 -/
def invMultRowColumn (a b c d : UInt8) : List UInt8 :=
  [multe a ^^^ multb b ^^^ multd c ^^^ mult9 d, mult9 a ^^^ multe b ^^^ multb c ^^^ multd d,
    multd a ^^^ mult9 b ^^^ multe c ^^^ multb d, multb a ^^^ multd b ^^^ mult9 c ^^^ multe d]

/-- SRCLINE: aes_decrypt.c:81-90 -/
def invMixColumns (s : List UInt8) : List UInt8 := onColumns invMultRowColumn s

/-- SRCLINE: aes_decrypt.c:104-111 -/
def invSubBytes (s : List UInt8) : List UInt8 := s.map fun a => invSbox.getD a.toNat 0

/-- SRCLINE: aes_decrypt.c:118-127 -/
def invShiftRows (s : List UInt8) : List UInt8 :=
  [0, 13, 10, 7, 4, 1, 14, 11, 8, 5, 2, 15, 12, 9, 6, 3].map fun i => s.getD i 0

/-- The loop counts down from 9. SRCLINE: aes_decrypt.c:129-164 -/
def tcAesDecrypt (block : List UInt8) (s : List UInt32) : List UInt8 :=
  let state := addRoundKey block (s.drop 40)
  let state := (List.range 9).reverse.foldl (fun state i =>
    invMixColumns (addRoundKey (invSubBytes (invShiftRows state)) (s.drop (4 * (i + 1))))) state
  addRoundKey (invSubBytes (invShiftRows state)) s

/-- SRCLINE: crypto.c:148-168 -/
def btEncryptBe (key plaintext : List UInt8) : List UInt8 := tcAesEncrypt plaintext (tcAes128SetEncryptKey key)

/-- SRCLINE: crypto.c:170-187 -/
def btDecryptBe (key encData : List UInt8) : List UInt8 := tcAesDecrypt encData (tcAes128SetDecryptKey key)

/-- The functions of the SDK, for any SHA-256. SRCLINE: mesh_hal_sec.c:25-47 -/
def sdkCrypto (sha256 : List UInt8 → List UInt8) : Crypto where
  sha256 := sha256
  aesEncrypt := btEncryptBe
  aesDecrypt := fun key encData => some (btDecryptBe key encData)

end GenieSdk.Model
