import GroupKey.Agreement.Broadcast
import GroupKey.Agreement.Proof

/-!
# The key agreement of one node

An engine holds a node's own key, the join it is waiting for and the group key pair it has
derived. A key backs one join proof: the next proof is made with a fresh key. Operations that
draw or publish work on the node's resources, its generator and the shared directory, and a
failing operation gives back engine and resources as it left them.
-/

namespace GroupKey

/-- A node's own key. -/
structure NodeKey (S : Suite) where
  secret : SecretKey S
  publicKey : PublicKey S
  /-- Its number in the directory. -/
  id : UInt32
  /-- Whether it has backed a join proof. -/
  used : Bool

/-- A join proof waiting for its acknowledgement. -/
structure PendingJoin (S : Suite) where
  group : GroupId
  slot : UInt32
  /-- The entry that was kept back. -/
  reserved : S.G1
  /-- The group's encryption key after the join. -/
  key : EncryptionKey S

/-- A derived group key pair. -/
structure Membership (S : Suite) where
  group : GroupId
  slot : UInt32
  key : EncryptionKey S
  decryptionKey : S.G1

/-- The state of one node's key agreement. -/
structure Engine (S : Suite) where
  key : Option (NodeKey S)
  pending : Option (PendingJoin S)
  membership : Option (Membership S)

/-- What an operation draws from and publishes to. -/
structure Resources (S : Suite) (ρ : Type) where
  directory : Directory S
  generator : ρ

/-- The outcome of an operation, with engine and resources as it left them. -/
structure Engine.Outcome (S : Suite) (ρ α : Type) where
  result : Except AgreementError α
  engine : Engine S
  resources : Resources S ρ

variable {S : Suite} {ρ : Type} [Generator ρ]

namespace NodeKey

/-- How many directory numbers are tried before giving up. -/
def maxAttempts : Nat := 16

/-- Draws directory numbers until one accepts the key. -/
def publish (key : PublicKey S) : (attempts : Nat) → Resources S ρ → Option UInt32 × Resources S ρ
  | 0, res => (none, res)
  | attempts + 1, res =>
    let (id, generator) := Generator.word32 res.generator
    match res.directory.upload id key with
    | (true, directory) => (some id, ⟨directory, generator⟩)
    | (false, directory) => publish key attempts ⟨directory, generator⟩

/-- Draws a key and publishes it. -/
def fresh (res : Resources S ρ) : Except AgreementError (NodeKey S) × Resources S ρ :=
  let (secret, generator) := SecretKey.random res.generator
  let publicKey := secret.publicKey
  match publish publicKey maxAttempts { res with generator } with
  | (some id, res) => (.ok ⟨secret, publicKey, id, false⟩, res)
  | (none, res) => (.error .keyIdExhausted, res)

end NodeKey

namespace Engine

/-- An engine without any key. -/
def empty : Engine S := ⟨none, none, none⟩

/-- Replaces the node's key by a fresh one and gives its directory number. -/
def keyGen (e : Engine S) (res : Resources S ρ) : Outcome S ρ UInt32 :=
  match NodeKey.fresh res with
  | (.ok key, res) => ⟨.ok key.id, { e with key := some key }, res⟩
  | (.error err, res) => ⟨.error err, e, res⟩

/-- The key for the next proof: the node's key if it is unused, else a fresh one. -/
def unusedKey (e : Engine S) (res : Resources S ρ) :
    Except AgreementError (NodeKey S) × Resources S ρ :=
  match e.key with
  | some key => if key.used then NodeKey.fresh res else (.ok key, res)
  | none => NodeKey.fresh res

/-- Makes a join proof for a slot of a group with encryption key `current`, and remembers what
the acknowledgement has to agree with. The node's key is taken out first and comes back, marked
as used, with the proof. -/
def prove (p : Parameters S) (group : GroupId) (current : EncryptionKey S) (tier : UInt16)
    (slot : UInt32) (e : Engine S) (res : Resources S ρ) : Outcome S ρ (JoinProof S) :=
  match p.scale tier with
  | .error err => ⟨.error err, e, res⟩
  | .ok scale =>
    if scale ≤ slot.toNat then ⟨.error (.slotOutOfRange slot.toNat scale), e, res⟩
    else
      match e.unusedKey res with
      | (.error err, res) => ⟨.error err, { e with key := none }, res⟩
      | (.ok key, res) =>
        let (w, generator) := S.randomScalar res.generator
        let res : Resources S ρ := { res with generator }
        let u := w • S.base2
        let v := S.challenge group.toBytes key.publicKey u
        let entries := p.entries scale (key.secret.exponent v) w
        match p.keyChange tier slot key.publicKey v u with
        | .error err => ⟨.error err, { e with key := none }, res⟩
        | .ok change =>
          let pending : PendingJoin S :=
            ⟨group, slot, (entries[slot.toNat]?).getD 0, current.apply change⟩
          let proof : JoinProof S :=
            ⟨key.id, tier, slot, group, u, Parameters.withoutSlot slot.toNat entries⟩
          ⟨.ok proof, { e with key := some { key with used := true }, pending := some pending }, res⟩

/-- Completes the pending join with the share of its slot. Nothing happens unless group and slot
are those of the pending join and the key is the one it expects. -/
def derive (e : Engine S) (group : GroupId) (slot : UInt32) (share : S.G1)
    (expected : EncryptionKey S) : Bool × Engine S :=
  match e.pending with
  | none => (false, e)
  | some pending =>
    if pending.group ≠ group ∨ pending.slot ≠ slot then (false, e)
    else if pending.key ≠ expected then (false, e)
    else
      let membership : Membership S := ⟨group, slot, pending.key, share + pending.reserved⟩
      (true, { e with pending := none, membership := some membership })

/-- The key pair of a member after another node has joined with `proof`. -/
def absorbed (p : Parameters S) (directory : Directory S) (proof : JoinProof S)
    (m : Membership S) : Except AgreementError (Membership S) :=
  match proof.entry? m.slot.toNat with
  | none => .error (.slotOutOfRange m.slot.toNat proof.scale)
  | some mine =>
    match p.tier proof.tier with
    | .error err => .error err
    | .ok t =>
      match t.commitment proof.slot m.slot with
      | .error err => .error err
      | .ok displaced =>
        match proof.keyChange p directory with
        | .error err => .error err
        | .ok change =>
          .ok { m with
            key := m.key.apply change
            decryptionKey := m.decryptionKey + mine - displaced }

/-- Folds another node's join into the group key pair. -/
def absorb (p : Parameters S) (directory : Directory S) (proof : JoinProof S) (e : Engine S) :
    Except AgreementError Unit × Engine S :=
  match e.membership with
  | none => (.error .notJoined, e)
  | some m =>
    match absorbed p directory proof m with
    | .ok m => (.ok (), { e with membership := some m })
    | .error err => (.error err, e)

/-- Forgets the pending join. -/
def abandon (e : Engine S) : Engine S := { e with pending := none }

/-- Decrypts a part of a ciphertext with the group key pair. -/
def decrypt (p : Parameters S) (e : Engine S) (c : Ciphertext S) (index : Nat) :
    Except AgreementError Bytes :=
  match e.membership with
  | none => .error .notJoined
  | some m => c.decryptWith p m.decryptionKey m.slot index

end Engine

end GroupKey
