import GroupKey.Proofs.Node.Broadcast
import GroupKey.Proofs.Node.Ledger
import GroupKey.Proofs.Node.Member
import Mathlib.Algebra.BigOperators.Group.Finset.Basic

/-!
# The joins behind the keys of coordinator and members

The coordinator and the members of a group fold the same joins into their keys, each on its own. An
observer of the medium can tell which. A join has the number of its frame. The joins behind the key
of a group are those that the coordinator accepted since it founded the group. A member starts with
the joins behind the key that its acknowledgement carries, and adds those that it follows.

* `Broadcast.change?`, `Broadcast.keyAfter` — what a join adds to a key, and the key after a set of
  joins.
* `Broadcast.Grows` — what a run does not take back, so that these stay the same.
* `Journal` — a network over its medium with what an observer notes.
-/

namespace GroupKey

variable {S : Suite} {ρ : Type}

/-- The encryption key of a new group of a tier. -/
def Parameters.foundingKey (p : Parameters S) (tier : UInt16) : EncryptionKey S :=
  match p.tier tier with
  | .ok t => ⟨(ManagedGroup.Sums.ofTier t).lambda, (ManagedGroup.Sums.ofTier t).mu⟩
  | .error _ => ⟨0, 0⟩

namespace Broadcast

variable {b b' : Broadcast S ρ} {joins : Finset Nat}

/-! ## What a join adds to a key -/

/-- The message in the frame of a given number. -/
def message? (b : Broadcast S ρ) (index : Nat) : Option (Message S) :=
  (b.sent[index]?).bind b.network.context.decode?

/-- What the join in the frame of a given number adds to the key of its group. -/
def change? (b : Broadcast S ρ) (index : Nat) : Option (KeyChange S) :=
  match b.message? index with
  | some (.join join) =>
    (join.proof.keyChange b.network.context.parameters b.network.directory).toOption
  | _ => none

/-- Each of the frames is a join that adds something to a key. -/
def Covers (b : Broadcast S ρ) (joins : Finset Nat) : Prop :=
  ∀ index ∈ joins, ∃ change, b.change? index = some change

/-- What a set of joins adds to a key. -/
def total [S.AbelianSources] (b : Broadcast S ρ) (joins : Finset Nat) : KeyChange S where
  lambda := ∑ index ∈ joins, ((b.change? index).map (·.lambda)).getD 0
  mu := ∑ index ∈ joins, ((b.change? index).map (·.mu)).getD 0

/-- The key of a group after a set of joins. -/
def keyAfter [S.AbelianSources] (b : Broadcast S ρ) (group : GroupId) (joins : Finset Nat) :
    EncryptionKey S :=
  (b.network.context.parameters.foundingKey group.tier).apply (b.total joins)

section KeyAfter

variable [S.AbelianSources]

theorem keyAfter_empty (group : GroupId) :
    b.keyAfter group ∅ = b.network.context.parameters.foundingKey group.tier := by
  simp [keyAfter, total, EncryptionKey.apply]

theorem keyAfter_insert {group : GroupId} {index : Nat} {change : KeyChange S}
    (hnew : index ∉ joins) (hchange : b.change? index = some change) :
    b.keyAfter group (insert index joins) = (b.keyAfter group joins).apply change := by
  simp only [keyAfter, total, EncryptionKey.apply, Finset.sum_insert hnew, hchange, Option.map_some,
    Option.getD_some, EncryptionKey.mk.injEq]
  constructor <;> abel

/-- Two sets of joins give the same key if what only one of them has adds up to what only the other
has. -/
theorem keyAfter_eq_iff {group : GroupId} {joins others : Finset Nat} :
    b.keyAfter group joins = b.keyAfter group others ↔
      b.total (joins \ others) = b.total (others \ joins) := by
  have hsum : ∀ {M : Type} [AddCommGroup M] (k : M) (f : Nat → M),
      k + ∑ index ∈ joins, f index = k + ∑ index ∈ others, f index ↔
        ∑ index ∈ joins \ others, f index = ∑ index ∈ others \ joins, f index := by
    intro M _ k f
    rw [← Finset.sum_sdiff (show joins ∩ others ⊆ joins from Finset.inter_subset_left),
      ← Finset.sum_sdiff (show joins ∩ others ⊆ others from Finset.inter_subset_right),
      Finset.sdiff_inter_self_left, Finset.sdiff_inter_self_right, add_right_inj, add_left_inj]
  simp only [keyAfter, total, EncryptionKey.apply, EncryptionKey.mk.injEq, KeyChange.mk.injEq, hsum]

end KeyAfter

/-! ## What a run does not take back -/

/-- A later state of the same network over the same medium. -/
structure Grows (b b' : Broadcast S ρ) : Prop where
  context : b'.network.context = b.network.context
  sent : b.sent <+: b'.sent
  directory : b'.network.directory.Extends b.network.directory

namespace Grows

variable (h : b.Grows b')

include h

theorem message? {index : Nat} {m : Message S} (hm : b.message? index = some m) :
    b'.message? index = some m := by
  obtain ⟨frame, hframe, hm⟩ := Option.bind_eq_some_iff.1 hm
  obtain ⟨rest, hrest⟩ := h.sent
  have hlt := (List.getElem?_eq_some_iff.1 hframe).1
  rw [Broadcast.message?, h.context, ← hrest, List.getElem?_append_left hlt, hframe]
  exact hm

theorem change? {index : Nat} {change : KeyChange S} (hc : b.change? index = some change) :
    b'.change? index = some change := by
  unfold Broadcast.change? at hc
  split at hc
  · next join hjoin =>
    rw [Broadcast.change?, h.message? hjoin, h.context]
    cases hproof : join.proof.keyChange b.network.context.parameters b.network.directory with
    | error e => simp [hproof, Except.toOption] at hc
    | ok change' =>
      rw [hproof] at hc
      simp only [JoinProof.keyChange_mono h.directory hproof]
      exact hc
  · simp at hc

theorem covers (hc : b.Covers joins) : b'.Covers joins := fun index hindex => by
  obtain ⟨change, hchange⟩ := hc index hindex
  exact ⟨change, h.change? hchange⟩

theorem keyAfter [S.AbelianSources] (hc : b.Covers joins) (group : GroupId) :
    b'.keyAfter group joins = b.keyAfter group joins := by
  have hsame : ∀ index ∈ joins, b'.change? index = b.change? index := fun index hindex => by
    obtain ⟨change, hchange⟩ := hc index hindex
    rw [hchange, h.change? hchange]
  rw [Broadcast.keyAfter, Broadcast.keyAfter, h.context]
  congr 1
  unfold total
  congr 1 <;> exact Finset.sum_congr rfl fun index hindex => by rw [hsame index hindex]

end Grows

theorem Covers.lt (h : b.Covers joins) {index : Nat} (hindex : index ∈ joins) :
    index < b.sent.length := by
  obtain ⟨change, hchange⟩ := h index hindex
  unfold change? message? at hchange
  by_contra hge
  rw [List.getElem?_eq_none (Nat.le_of_not_lt hge)] at hchange
  simp at hchange

end Broadcast

variable [Generator ρ]

theorem Member.extends_receive (ctx : Context S) (now : Timestamp) (frame : Bytes)
    (m : Member S ρ) (directory : Directory S) :
    (m.receive ctx now frame directory).2.2.Extends directory := by
  unfold receive
  split
  · next msg _ =>
    cases msg with
    | notifyPosition a => exact extends_handleNotifyPosition ctx a directory m
    | _ => exact Directory.Extends.refl _
  · exact Directory.Extends.refl _

/-! ## What an observer notes -/

/-- The joins behind the key of a member after a message: a join that it follows is added, and the
acknowledgement of its own join brings those behind the key that it carries. -/
def Member.accountAfter (ctx : Context S) (directory : Directory S) (msg : Message S) (index : Nat)
    (stamp account : Finset Nat) (m : Member S ρ) : Finset Nat :=
  match msg with
  | .join join =>
    if ∃ g engine, m.Follows ctx directory join g engine then insert index account else account
  | .joinAck ack => if ∃ pending, m.Completes ack pending then stamp else account
  | .heartbeat _ | .heartbeatAck _ | .notifyPosition _ | .keyEncapNotify _ | .keyEncap _
  | .keyUpdate _ | .keyUpdateAck _ => account

/-- A network over its medium under observation. Joins are named by the numbers of their frames. -/
structure Journal (S : Suite) (ρ : Type) extends Broadcast S ρ where
  /-- The joins accepted for each group since it was founded. -/
  ledger : GroupId → Finset Nat
  /-- The ledger of the group for which a frame acknowledges a join, when it was sent. -/
  stamps : Nat → Finset Nat
  /-- The joins behind the key of each member. -/
  accounts : Nat → Finset Nat

namespace Journal

/-- A network of which nothing was seen yet. -/
def start (n : Network S ρ) : Journal S ρ := ⟨.start n, fun _ => ∅, fun _ => ∅, fun _ => ∅⟩

/-- The group for which the coordinator accepts a frame as a join. -/
def admittedTo? (w : Journal S ρ) (frame : Bytes) : Option GroupId :=
  let n := w.network
  match (n.coordinator.receive n.context n.directory n.now frame).1 with
  | .ok [.joinAck ack] => some ack.group
  | _ => none

/-- The joins behind the key of a member after a frame arrives at it. -/
def accountAfter (w : Journal S ρ) (place index : Nat) : Finset Nat :=
  match w.network.members[place]?, w.message? index with
  | some m, some msg =>
    m.accountAfter w.network.context w.network.directory msg index (w.stamps index)
      (w.accounts place)
  | _, _ => w.accounts place

/-- An action under observation. -/
def step (w : Journal S ρ) (a : Network.Action) : Journal S ρ :=
  let next := w.toBroadcast.step a
  match a with
  | .clock _ => ⟨next, w.ledger, w.stamps, w.accounts⟩
  | .tick _ _ =>
    match Coordinator.founded? w.network.coordinator next.network.coordinator with
    | some group => ⟨next, Function.update w.ledger group ∅, w.stamps, w.accounts⟩
    | none => ⟨next, w.ledger, w.stamps, w.accounts⟩
  | .deliver 0 index =>
    match (w.sent[index]?).bind w.admittedTo? with
    | some group =>
      let joins := insert index (w.ledger group)
      ⟨next, Function.update w.ledger group joins,
        Function.update w.stamps w.sent.length joins, w.accounts⟩
    | none => ⟨next, w.ledger, w.stamps, w.accounts⟩
  | .deliver (place + 1) index =>
    ⟨next, w.ledger, w.stamps, Function.update w.accounts place (w.accountAfter place index)⟩

/-- A run under observation. -/
def run (n : Network S ρ) (actions : List Network.Action) : Journal S ρ :=
  actions.foldl step (start n)

theorem run_concat (n : Network S ρ) (actions : List Network.Action) (a : Network.Action) :
    run n (actions ++ [a]) = (run n actions).step a := by
  rw [run, List.foldl_append]
  rfl

end Journal

end GroupKey
