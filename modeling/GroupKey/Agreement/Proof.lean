import GroupKey.Agreement.Directory
import GroupKey.Agreement.Parameters

/-!
# Checking join proofs

A join proof for slot `i` claims, for every other slot `j`, that `z_j` is the joiner's combined
exponent of `g0` plus its ephemeral exponent of `h_j`. The check combines these equations with
random weights and evaluates both sides by pairings.
-/

namespace GroupKey

variable {S : Suite} {ρ : Type} [Generator ρ]

namespace Parameters

/-- What the encryption key gains when `key` takes the place of the pseudo member of `slot`. -/
def keyChange (p : Parameters S) (tier : UInt16) (slot : UInt32) (key : PublicKey S)
    (v : S.Scalar) (u : S.G2) : Except AgreementError (KeyChange S) :=
  match p.tier tier with
  | .error e => .error e
  | .ok t =>
    match t.member slot with
    | .error e => .error e
    | .ok m => .ok ⟨u - m.u, key.combined v - m.combined⟩

end Parameters

namespace JoinProof

/-- The challenge of a proof made with the public key `key`. -/
def challenge (proof : JoinProof S) (key : PublicKey S) : S.Scalar :=
  S.challenge proof.group.toBytes key proof.u

/-- What the encryption key gains by the join. -/
def keyChange (p : Parameters S) (directory : Directory S) (proof : JoinProof S) :
    Except AgreementError (KeyChange S) :=
  match directory.get? proof.keyId with
  | none => .error (.unknownPublicKey proof.keyId)
  | some key => p.keyChange proof.tier proof.slot key (proof.challenge key) proof.u

/-- The weighted sums that a batched check compares. -/
structure Batch (S : Suite) where
  /-- The weighted sum of the published entries. -/
  entries : S.G1
  /-- The weighted sum of the slot generators. -/
  bases : S.G1
  /-- The sum of the weights. -/
  weights : S.Scalar

/-- The sums of no entries. -/
def Batch.zero : Batch S := ⟨0, 0, S.scalar 0⟩

/-- Adds an entry and the generator of its slot under the weight `w`. -/
def Batch.add (b : Batch S) (w : S.Scalar) (z h : S.G1) : Batch S :=
  ⟨b.entries + w • z, b.bases + w • h, b.weights + w⟩

/-- Draws one weight for every entry from slot `j` on, save that of `slot`; none if one is
absent, before a weight is drawn for it. -/
def drawBatch (p : Parameters S) (slot : Nat) :
    (j : Nat) → List (Option S.G1) → Batch S → ρ → Option (Batch S) × ρ
  | _, [], b, r => (some b, r)
  | j, z :: zs, b, r =>
    if j = slot then drawBatch p slot (j + 1) zs b r
    else
      match z with
      | none => (none, r)
      | some z =>
        let (w, r) := S.randomScalar r
        drawBatch p slot (j + 1) zs (b.add w z (p.slotBase j)) r

/-- The batched equation: the entries carry the joiner's combined key and its ephemeral key. -/
def Batch.Holds (b : Batch S) (p : Parameters S) (combined : S.G1) (u : S.G2) : Prop :=
  S.pair b.entries p.g2 = S.pair (b.weights • combined) p.g0G2 + S.pair b.bases u

instance (b : Batch S) (p : Parameters S) (combined : S.G1) (u : S.G2) :
    Decidable (b.Holds p combined u) := inferInstanceAs (Decidable (_ = _))

/-- Whether the proof has the shape of its tier: an entry place for every slot, and none of its
own. -/
def HasShape (proof : JoinProof S) (scale : Nat) : Prop :=
  proof.z.length = scale ∧ proof.slot.toNat < scale ∧ proof.entry? proof.slot.toNat = none

instance (proof : JoinProof S) (scale : Nat) : Decidable (proof.HasShape scale) :=
  inferInstanceAs (Decidable (_ ∧ _ ∧ _))

/-- Checks a proof with fresh random weights. -/
def check (p : Parameters S) (directory : Directory S) (proof : JoinProof S) (r : ρ) :
    Bool × ρ :=
  match p.scale proof.tier with
  | .error _ => (false, r)
  | .ok scale =>
    if ¬ proof.HasShape scale then (false, r)
    else
      match directory.get? proof.keyId with
      | none => (false, r)
      | some key =>
        match drawBatch p proof.slot.toNat 0 proof.z .zero r with
        | (none, r) => (false, r)
        | (some b, r) => (decide (b.Holds p (key.combined (proof.challenge key)) proof.u), r)

end JoinProof

end GroupKey
