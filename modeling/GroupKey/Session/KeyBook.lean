import GroupKey.Session.Fingerprint
import Std.Data.ExtTreeMap

/-!
# The book of session keys

A node learns of a session key twice: its fingerprint is confirmed by the coordinator, and its
bytes come from a distribution. The key is adopted once both have arrived for the same version
and hash, in either order. Until then it is a candidate, filed under its version. Candidates
that nobody confirmed are limited in number; the highest versions are dropped first.
-/

namespace GroupKey

/-- A session key of which one half has arrived. -/
structure Candidate where
  fingerprint : Fingerprint
  key : Option Bytes
  /-- Whether the coordinator has confirmed the fingerprint. -/
  confirmed : Bool
  deriving DecidableEq

/-- The adopted session key and the candidates for the next. -/
structure KeyBook where
  /-- The fingerprint of the adopted key. -/
  current : Fingerprint
  /-- The adopted key. -/
  key : Option Bytes
  /-- The candidates by version, in order of arrival. -/
  pending : Std.ExtTreeMap UInt32 (List Candidate)

namespace Candidate

/-- Whether the candidate stands for the key with this hash. -/
def HasDigest (digest : Digest) (c : Candidate) : Prop := c.fingerprint.digest = digest

instance (digest : Digest) (c : Candidate) : Decidable (c.HasDigest digest) :=
  inferInstanceAs (Decidable (_ = _))

/-- Changes the first candidate with the given hash, or adds `new` at the end if there is none. -/
def upsert (digest : Digest) (f : Candidate → Candidate) (new : Candidate) :
    List Candidate → List Candidate
  | [] => [new]
  | c :: cs => if c.HasDigest digest then f c :: cs else c :: upsert digest f new cs

/-- Removes the last unconfirmed candidate. -/
def dropLastUnconfirmed (cs : List Candidate) : List Candidate :=
  (cs.reverse.eraseP fun c => !c.confirmed).reverse

/-- Removes the candidate at a place, putting the last one there. -/
def swapRemove (i : Nat) (cs : List Candidate) : List Candidate :=
  match cs.getLast? with
  | some last => (cs.set i last).dropLast
  | none => cs

end Candidate

namespace KeyBook

/-- How many unconfirmed candidates a book keeps. -/
def maxUnconfirmed : Nat := 16

/-- A book without any key. -/
def empty : KeyBook := ⟨.zero, none, ∅⟩

/-- The highest version seen, adopted or pending. -/
def highestVersion (b : KeyBook) : UInt32 := max ((b.pending.maxKey?).getD 0) b.current.version

/-- The candidates of a version. -/
def candidates (b : KeyBook) (version : UInt32) : List Candidate := (b.pending[version]?).getD []

/-- The first candidate with the version and hash of `f`. -/
def find? (b : KeyBook) (f : Fingerprint) : Option Candidate :=
  (b.candidates f.version).find? fun c => c.HasDigest f.digest

/-- Whether the bytes of the key with fingerprint `f` are held. -/
def HasKeyFor (b : KeyBook) (f : Fingerprint) : Prop :=
  (b.current.version = f.version ∧ b.current.digest = f.digest ∧ b.key.isSome) ∨
    (b.find? f).any (·.key.isSome)

instance (b : KeyBook) (f : Fingerprint) : Decidable (b.HasKeyFor f) :=
  inferInstanceAs (Decidable (_ ∨ _))

/-- The number of versions with candidates. -/
def pendingVersions (b : KeyBook) : Nat := b.pending.size

/-- The number of unconfirmed candidates. -/
def unconfirmed (b : KeyBook) : Nat :=
  (b.pending.values.flatten.filter fun c => !c.confirmed).length

/-- Adopts the candidate for `f` if it is confirmed and its bytes are held, and gives up all
candidates of no higher version. -/
def adopt (b : KeyBook) (f : Fingerprint) : Bool × KeyBook :=
  let cs := b.candidates f.version
  match cs.findIdx? (fun c => c.HasDigest f.digest && c.confirmed && c.key.isSome) with
  | none => (false, b)
  | some i =>
    match cs[i]? with
    | none => (false, b)
    | some adopted =>
      let next := UInt32.ofNat (min (f.version.toNat + 1) (UInt32.size - 1))
      let pending := b.pending.insert f.version (Candidate.swapRemove i cs)
      (true, ⟨adopted.fingerprint, adopted.key, pending.filter fun v _ => next ≤ v⟩)

/-- Notes a fingerprint that the coordinator has confirmed; true if a key was adopted. Nothing
older can be adopted from then on. -/
def observe (b : KeyBook) (f : Fingerprint) : Bool × KeyBook :=
  if ¬ f.IsNewer b.current then (false, b)
  else
    let pending := b.pending.filter fun v _ => f.version ≤ v
    let cs := Candidate.upsert f.digest ({ · with confirmed := true }) ⟨f, none, true⟩
      ((pending[f.version]?).getD [])
    adopt { b with pending := pending.insert f.version cs } f

/-- Drops the last unconfirmed candidate of the highest version that has one. -/
def evictOne (b : KeyBook) : KeyBook :=
  match (b.pending.filter fun _ cs => cs.any (!·.confirmed)).maxKey? with
  | none => b
  | some v =>
    match Candidate.dropLastUnconfirmed (b.candidates v) with
    | [] => { b with pending := b.pending.erase v }
    | cs => { b with pending := b.pending.insert v cs }

/-- Drops unconfirmed candidates until at most `maxUnconfirmed` are left. -/
def evict (b : KeyBook) : KeyBook := Nat.repeat evictOne (b.unconfirmed - maxUnconfirmed) b

/-- Notes the bytes of the key with fingerprint `f`; true if it was adopted. Bytes that do not
belong to the fingerprint, that are too old or already held, are ignored. -/
def offer (hash : Bytes → Digest) (b : KeyBook) (f : Fingerprint) (key : Bytes) : Bool × KeyBook :=
  if ¬ (f.IsNewer b.current ∧ f.Matches hash key) then (false, b)
  else if (b.find? f).any (·.key.isSome) then (false, b)
  else
    let cs := Candidate.upsert f.digest ({ · with key := some key }) ⟨f, some key, false⟩
      (b.candidates f.version)
    adopt (evict { b with pending := b.pending.insert f.version cs }) f

end KeyBook

end GroupKey
