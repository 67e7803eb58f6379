import GroupKey.Node.Network
import Mathlib.Logic.Function.Basic

/-!
# Networks over a broadcast medium

All nodes send on one medium, which keeps the frames in the order in which they were sent. What it
does with them is up to the run: a frame may arrive at a node at any later time and any number of
times, or never. The clock may be set to any time.

* `Network.Action` — what can happen next.
* `Network.Orderly` — lists of actions in which frames are lost, but never overtake each other.
* `Network.IsNew` — what a network starts from.
* `Broadcast` — a network with the frames sent so far.
* `Broadcast.run` — what follows from a list of actions.
-/

namespace GroupKey

variable {S : Suite} {ρ : Type} [Generator ρ]

namespace Network

/-- What can happen to a network. -/
inductive Action where
  /-- The clock is set. -/
  | clock (now : Timestamp)
  /-- A timer of a node fires. -/
  | tick (node : Nat) (timer : Timer)
  /-- The frame sent as number `index` arrives at a node. -/
  | deliver (node index : Nat)

/-- Whether a frame arrives in order: the node has `heard` all it is going to hear of the frames
before that number. -/
def Action.InOrder (heard : Nat → Nat) : Action → Prop
  | .deliver node index => heard node ≤ index
  | .clock _ | .tick _ _ => True

/-- From which frame on each node is still going to hear something after an action. -/
def Action.advance (heard : Nat → Nat) : Action → Nat → Nat
  | .deliver node index => Function.update heard node (index + 1)
  | .clock _ | .tick _ _ => heard

/-- At every node the frames arrive in the order in which they were sent, each at most once. -/
def Orderly : (heard : Nat → Nat) → List Action → Prop
  | _, [] => True
  | heard, a :: actions => a.InOrder heard ∧ Orderly (a.advance heard) actions

instance (heard : Nat → Nat) (a : Action) : Decidable (a.InOrder heard) :=
  match a with
  | .deliver node index => inferInstanceAs (Decidable (heard node ≤ index))
  | .clock _ | .tick _ _ => isTrue trivial

instance decidableOrderly : (heard : Nat → Nat) → (actions : List Action) →
    Decidable (Orderly heard actions)
  | _, [] => isTrue trivial
  | heard, a :: actions =>
    have := decidableOrderly (a.advance heard) actions
    inferInstanceAs (Decidable (a.InOrder heard ∧ Orderly (a.advance heard) actions))

/-- The nodes know of no group and no session key. -/
structure IsNew (context : Context S) (n : Network S ρ) : Prop where
  context : n.context = context
  groups : n.coordinator.groups = ∅
  assignment : n.coordinator.assignment = none
  accepted : n.coordinator.accepted = .zero
  session : n.coordinator.session = .empty
  members : ∀ m ∈ n.members, m.phase = .unset ∧ m.groups = ∅ ∧ m.session = .empty

theorem isNew_enroll {context : Context S} {n n' : Network S ρ} (hn : n.IsNew context)
    {members : List (UInt32 × ρ)} (h : assemble.enroll members n = .ok n') : n'.IsNew context := by
  induction members generalizing n with
  | nil =>
    obtain rfl := Except.ok.inj h
    exact hn
  | cons member members ih =>
    simp only [assemble.enroll, Member.new] at h
    split at h
    · simp at h
    · next m d hm =>
      split at hm
      · simp at hm
      · obtain ⟨hok, rfl⟩ := Prod.mk.inj hm
        obtain rfl := Except.ok.inj hok
        refine ih ?_ h
        refine ⟨hn.context, hn.groups, hn.assignment, hn.accepted, hn.session, ?_⟩
        intro m hm
        rcases List.mem_append.1 hm with hm | hm
        · exact hn.members m hm
        · obtain rfl := List.mem_singleton.1 hm
          exact ⟨rfl, rfl, rfl⟩

theorem isNew_assemble {context : Context S} {now : Timestamp} {directory : Directory S}
    {coordinator : UInt32 × ρ} {secrets : SlotSecrets S} {members : List (UInt32 × ρ)}
    {n : Network S ρ} (h : assemble context now directory coordinator secrets members = .ok n) :
    n.IsNew context := by
  unfold assemble Coordinator.new at h
  simp only at h
  split at h
  · simp at h
  · next c hc =>
    split at hc
    · simp at hc
    · obtain rfl := Except.ok.inj hc
      exact isNew_enroll ⟨rfl, rfl, rfl, rfl, rfl, by simp⟩ h

/-- The frames of an outcome; a failing node sends none. -/
def sent : Except NodeError (List Bytes) → List Bytes
  | .ok frames => frames
  | .error _ => []

theorem mem_sent {result : Except NodeError (List (Message S))} {frame : Bytes}
    (h : frame ∈ sent (frames result)) : ∃ ms, result = .ok ms ∧ ∃ x ∈ ms, x.encode = frame := by
  cases result with
  | error e => simp [sent, frames, Except.map] at h
  | ok ms => exact ⟨ms, rfl, List.mem_map.1 h⟩

end Network

/-- A network with the frames that were sent, in order. -/
structure Broadcast (S : Suite) (ρ : Type) where
  network : Network S ρ
  sent : List Bytes

namespace Broadcast

/-- The outcome of an action, with the answer of the node concerned. A frame that was not sent does
not arrive. -/
def act (a : Network.Action) (b : Broadcast S ρ) : Except NodeError (List Bytes) × Network S ρ :=
  match a with
  | .clock now => (.ok [], { b.network with now })
  | .tick node timer => b.network.tick node timer
  | .deliver node index =>
    match b.sent[index]? with
    | some frame => b.network.deliver node frame
    | none => (.ok [], b.network)

/-- The medium takes what is sent. -/
def step (a : Network.Action) (b : Broadcast S ρ) : Broadcast S ρ :=
  let (result, network) := b.act a
  ⟨network, b.sent ++ Network.sent result⟩

/-- A network that has sent nothing yet. -/
def start (n : Network S ρ) : Broadcast S ρ := ⟨n, []⟩

/-- What follows from a list of actions. -/
def run (n : Network S ρ) (actions : List Network.Action) : Broadcast S ρ :=
  actions.foldl (fun b a => b.step a) (start n)

end Broadcast

end GroupKey
