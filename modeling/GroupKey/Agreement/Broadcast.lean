import GroupKey.Agreement.Parameters

/-!
# Broadcast encryption

A message is masked once per recipient group. The mask is the keystream of a target-group
element that the holder of any of the group's decryption keys can compute from the part's
second element.
-/

namespace GroupKey

variable {S : Suite} {ρ : Type} [Generator ρ]

namespace Ciphertext

/-- The part of a ciphertext for the group with encryption key `key`. -/
def partFor (p : Parameters S) (message : Bytes) (omega : S.Scalar) (key : EncryptionKey S) :
    CiphertextPart S :=
  let shared := S.pair (omega • key.mu) p.g0G2
  ⟨omega • key.lambda, Bytes.xor message (S.keystream shared message.length)⟩

/-- Encrypts a message to the groups with the given keys, in order. -/
def encrypt (p : Parameters S) (message : Bytes) (keys : List (EncryptionKey S)) (r : ρ) :
    Ciphertext S × ρ :=
  let (omega, r) := S.randomScalar r
  (⟨omega • S.base2, keys.map (partFor p message omega)⟩, r)

/-- Decrypts the part `index` with the decryption key of `slot`. A wrong key gives other bytes
and no error. -/
def decryptWith (p : Parameters S) (decryptionKey : S.G1) (slot : UInt32) (c : Ciphertext S)
    (index : Nat) : Except AgreementError Bytes :=
  match c.parts[index]? with
  | none => .error (.ciphertextIndexOutOfRange index c.parts.length)
  | some part =>
    match p.h[slot.toNat]? with
    | none => .error (.slotOutOfRange slot.toNat p.h.length)
    | some h =>
      let shared := S.pair decryptionKey c.c1 - S.pair h part.c2
      .ok (Bytes.xor part.c3 (S.keystream shared part.c3.length))

end Ciphertext

end GroupKey
