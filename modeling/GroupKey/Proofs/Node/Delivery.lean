import GroupKey.Proofs.Node.Journal

/-!
# Rounds in which no frame is lost

A frame that is broadcast without loss reaches all nodes but its sender, one after the other. Each
of them answers from the state that it was in before, and finds at least the keys that were
published by then. This file turns a broadcast into what it does to each node, and a round into an
induction over its queue.

* `Network.Heard` — what a broadcast does to each node, and what the nodes answer.
* `exists_heard` — every broadcast that no node fails is of this kind.
* `replies` — the answers in the order in which they are queued.
* `drain_induction` — what every broadcast keeps holds when the queue is empty.
-/

namespace GroupKey.Network

variable {S : Suite} {ρ : Type} {n n₁ n' : Network S ρ}

/-! ## Networks that go on -/

/-- The same network later, at the same time. -/
structure Grows (n n' : Network S ρ) : Prop where
  context : n'.context = n.context
  now : n'.now = n.now
  length : n'.members.length = n.members.length
  directory : n'.directory.Extends n.directory

theorem Grows.refl (n : Network S ρ) : n.Grows n := ⟨rfl, rfl, rfl, Directory.Extends.refl _⟩

theorem Grows.trans (h : n.Grows n₁) (h' : n₁.Grows n') : n.Grows n' :=
  ⟨h'.context.trans h.context, h'.now.trans h.now, h'.length.trans h.length,
    h'.directory.trans h.directory⟩

/-- A node is as it was. -/
def Stays (n n' : Network S ρ) : (node : Nat) → Prop
  | 0 => n'.coordinator = n.coordinator
  | place + 1 => n'.members[place]? = n.members[place]?

/-! ## Answers and their frames -/

theorem frames_eq_ok {result : Except NodeError (List (Message S))} {bytes : List Bytes}
    (h : frames result = .ok bytes) : ∃ ms, result = .ok ms ∧ bytes = ms.map Message.encode := by
  cases result with
  | error e => simp [frames, Except.map] at h
  | ok ms => exact ⟨ms, rfl, (Except.ok.inj h).symm⟩

/-- The answers of the listed nodes, in their order. -/
def repliesOf (nodes : List Nat) (answer : Nat → List (Message S)) : List Transmission :=
  nodes.flatMap fun node => (answer node).map fun m => ⟨node, m.encode⟩

theorem repliesOf_cons (node : Nat) (nodes : List Nat) (answer : Nat → List (Message S)) :
    repliesOf (node :: nodes) answer =
      (answer node).map (fun m => ⟨node, m.encode⟩) ++ repliesOf nodes answer :=
  List.flatMap_cons

/-- The answers of all nodes, in their order. -/
def replies (n : Network S ρ) (answer : Nat → List (Message S)) : List Transmission :=
  repliesOf (List.range n.nodeCount) answer

theorem exists_of_mem_replies {answer : Nat → List (Message S)} {t : Transmission}
    (h : t ∈ n.replies answer) : ∃ node < n.nodeCount, ∃ m ∈ answer node, t = ⟨node, m.encode⟩ := by
  obtain ⟨node, hnode, h⟩ := List.mem_flatMap.1 h
  obtain ⟨m, hm, rfl⟩ := List.mem_map.1 h
  exact ⟨node, List.mem_range.1 hnode, m, hm, rfl⟩

theorem repliesOf_of_one {nodes : List Nat} {node : Nat} {answer : Nat → List (Message S)}
    (hnodes : nodes.Nodup) (hnode : node ∈ nodes)
    (h : ∀ other ∈ nodes, other ≠ node → answer other = []) :
    repliesOf nodes answer = (answer node).map fun m => ⟨node, m.encode⟩ := by
  induction nodes with
  | nil => simp at hnode
  | cons first nodes ih =>
    obtain ⟨hnew, hnodes⟩ := List.nodup_cons.1 hnodes
    rw [repliesOf_cons]
    by_cases hfirst : first = node
    · subst hfirst
      have hrest : repliesOf nodes answer = [] := by
        refine List.flatMap_eq_nil_iff.2 fun other hother => ?_
        rw [h other (List.mem_cons_of_mem _ hother) fun heq => hnew (heq ▸ hother), List.map_nil]
      rw [hrest, List.append_nil]
    · rw [h first List.mem_cons_self hfirst, List.map_nil, List.nil_append]
      exact ih hnodes ((List.mem_cons.1 hnode).resolve_left (Ne.symm hfirst)) fun other hother =>
        h other (List.mem_cons_of_mem _ hother)

/-! ## One node -/

variable [Generator ρ] {frame : Bytes} {answer : List (Message S)} {node : Nat}

/-- A node has handled a frame and given an answer. -/
def Reacts (frame : Bytes) (n n' : Network S ρ) (answer : List (Message S)) : (node : Nat) → Prop
  | 0 => ∃ d, d.Extends n.directory ∧
      n.coordinator.receive n.context d n.now frame = (.ok answer, n'.coordinator)
  | place + 1 => ∀ m, n.members[place]? = some m → ∃ m' d d', n'.members[place]? = some m' ∧
      d.Extends n.directory ∧ n'.directory.Extends d' ∧
      m.receive n.context n.now frame d = (.ok answer, m', d')

theorem Reacts.before (h : Reacts frame n₁ n' answer node) (hgrows : n.Grows n₁)
    (hstays : Stays n n₁ node) : Reacts frame n n' answer node := by
  cases node with
  | zero =>
    obtain ⟨d, hd, hreceive⟩ := h
    rw [show n₁.coordinator = n.coordinator from hstays, hgrows.context, hgrows.now] at hreceive
    exact ⟨d, hd.trans hgrows.directory, hreceive⟩
  | succ place =>
    intro m hm
    obtain ⟨m', d, d', hm', hd, hd', hreceive⟩ := h m (Eq.trans hstays hm)
    rw [hgrows.context, hgrows.now] at hreceive
    exact ⟨m', d, d', hm', hd.trans hgrows.directory, hd', hreceive⟩

theorem Reacts.after (h : Reacts frame n n₁ answer node) (hgrows : n₁.Grows n')
    (hstays : Stays n₁ n' node) : Reacts frame n n' answer node := by
  cases node with
  | zero =>
    obtain ⟨d, hd, hreceive⟩ := h
    exact ⟨d, hd, by rwa [show n'.coordinator = n₁.coordinator from hstays]⟩
  | succ place =>
    intro m hm
    obtain ⟨m', d, d', hm', hd, hd', hreceive⟩ := h m hm
    exact ⟨m', d, d', Eq.trans hstays hm', hd, hgrows.directory.trans hd', hreceive⟩

/-- **What the delivery of a frame does**, unless the node fails. -/
theorem exists_reacts {bytes : List Bytes} (h : n.deliver node frame = (.ok bytes, n₁)) :
    ∃ answer, bytes = answer.map Message.encode ∧ n.Grows n₁ ∧ Reacts frame n n₁ answer node ∧
      ∀ other, other ≠ node → Stays n n₁ other := by
  unfold deliver at h
  cases node with
  | zero =>
    rcases hreceive : n.coordinator.receive n.context n.directory n.now frame with ⟨result, c⟩
    simp only [hreceive] at h
    obtain ⟨hbytes, rfl⟩ := Prod.mk.inj h
    obtain ⟨answer, rfl, rfl⟩ := frames_eq_ok hbytes
    refine ⟨answer, rfl, ⟨rfl, rfl, rfl, Directory.Extends.refl _⟩,
      ⟨n.directory, Directory.Extends.refl _, hreceive⟩, fun other hother => ?_⟩
    cases other with
    | zero => exact absurd rfl hother
    | succ place => exact rfl
  | succ place =>
    simp only at h
    cases hm : n.members[place]? with
    | none =>
      simp only [hm] at h
      obtain ⟨hbytes, rfl⟩ := Prod.mk.inj h
      obtain rfl := Except.ok.inj hbytes
      refine ⟨[], rfl, .refl n, fun m hm' => ?_, fun other _ => by cases other <;> rfl⟩
      rw [hm] at hm'
      simp at hm'
    | some m =>
      have hextends := m.extends_receive n.context n.now frame n.directory
      rcases hreceive : m.receive n.context n.now frame n.directory with ⟨result, m', d'⟩
      rw [hreceive] at hextends
      simp only [hm, hreceive] at h
      obtain ⟨hbytes, rfl⟩ := Prod.mk.inj h
      obtain ⟨answer, rfl, rfl⟩ := frames_eq_ok hbytes
      have hlt := (List.getElem?_eq_some_iff.1 hm).1
      refine ⟨answer, rfl, ⟨rfl, rfl, List.length_set, hextends⟩, fun m₀ hm₀ => ?_,
        fun other hother => ?_⟩
      · obtain rfl : m = m₀ := Option.some.inj (hm.symm.trans hm₀)
        exact ⟨m', n.directory, d', List.getElem?_set_self hlt, Directory.Extends.refl _,
          Directory.Extends.refl _, hreceive⟩
      · cases other with
        | zero => exact rfl
        | succ place' =>
          exact List.getElem?_set_ne fun heq => hother (congrArg Nat.succ heq.symm)

/-! ## All nodes -/

/-- A frame has reached the listed nodes, save its sender. They have answered; no other node has
changed. -/
structure Heard (t : Transmission) (nodes : List Nat) (n n' : Network S ρ)
    (answer : Nat → List (Message S)) : Prop where
  grows : n.Grows n'
  reacts : ∀ node ∈ nodes, node ≠ t.sender → Reacts t.frame n n' (answer node) node
  stays : ∀ node, (node ∈ nodes → node = t.sender) → Stays n n' node
  silent : ∀ node, (node ∈ nodes → node = t.sender) → answer node = []

theorem exists_heard_of_nodup {t : Transmission} {nodes : List Nat} (hnodes : nodes.Nodup)
    {sent replies : List Transmission}
    (h : broadcastTo (fun _ _ => false) t nodes sent n = (.ok replies, n')) :
    ∃ answer, Heard t nodes n n' answer ∧ replies = sent ++ repliesOf nodes answer := by
  induction nodes generalizing sent n with
  | nil =>
    obtain ⟨hreplies, rfl⟩ := Prod.mk.inj h
    obtain rfl := Except.ok.inj hreplies
    exact ⟨fun _ => [], ⟨.refl n, by simp, fun node _ => by cases node <;> rfl, fun _ _ => rfl⟩,
      by simp [repliesOf]⟩
  | cons node nodes ih =>
    obtain ⟨hnew, hnodes⟩ := List.nodup_cons.1 hnodes
    unfold broadcastTo at h
    -- The sender passes its own frame over, every other node answers it. What the later nodes do is
    -- the induction hypothesis, from the network that the first one leaves.
    by_cases hsender : node = t.sender
    · rw [if_pos (Or.inl hsender)] at h
      obtain ⟨answer, hheard, hreplies⟩ := ih hnodes h
      have hweaken : ∀ {other}, (other ∈ node :: nodes → other = t.sender) →
          other ∈ nodes → other = t.sender := fun hother hmem =>
        hother (List.mem_cons_of_mem _ hmem)
      refine ⟨answer, ⟨hheard.grows, fun other hmem hne => ?_, fun other hother =>
        hheard.stays other (hweaken hother), fun other hother =>
        hheard.silent other (hweaken hother)⟩, ?_⟩
      · rcases List.mem_cons.1 hmem with rfl | hmem
        · exact absurd hsender hne
        · exact hheard.reacts other hmem hne
      · rw [hreplies, repliesOf_cons, hheard.silent node fun hmem => absurd hmem hnew]
        rfl
    · rw [if_neg (by simp [hsender])] at h
      rcases hdeliver : n.deliver node t.frame with ⟨_ | bytes, n₁⟩
      · simp [hdeliver] at h
      · simp only [hdeliver] at h
        obtain ⟨first, rfl, hgrows, hreacts, hothers⟩ := exists_reacts hdeliver
        obtain ⟨answer, hheard, hreplies⟩ := ih hnodes h
        have hlater : ∀ other, other ≠ node →
            Function.update answer node first other = answer other :=
          fun other hother => Function.update_of_ne hother _ _
        refine ⟨Function.update answer node first, ⟨hgrows.trans hheard.grows,
          fun other hmem hne => ?_, fun other hother => ?_, fun other hother => ?_⟩, ?_⟩
        · rcases List.mem_cons.1 hmem with rfl | hmem
          · rw [Function.update_self]
            exact hreacts.after hheard.grows (hheard.stays other fun hmem => absurd hmem hnew)
          · have hother : other ≠ node := fun heq => hnew (heq ▸ hmem)
            rw [hlater other hother]
            exact (hheard.reacts other hmem hne).before hgrows (hothers other hother)
        · have hne : other ≠ node := fun heq =>
            hsender (heq ▸ hother (heq ▸ List.mem_cons_self))
          have hrest := hheard.stays other fun hmem => hother (List.mem_cons_of_mem _ hmem)
          have hfirst := hothers other hne
          cases other with
          | zero => exact Eq.trans hrest hfirst
          | succ place => exact Eq.trans hrest hfirst
        · have hne : other ≠ node := fun heq =>
            hsender (heq ▸ hother (heq ▸ List.mem_cons_self))
          rw [hlater other hne]
          exact hheard.silent other fun hmem => hother (List.mem_cons_of_mem _ hmem)
        · have hrest : repliesOf nodes (Function.update answer node first) =
              repliesOf nodes answer := by
            unfold repliesOf
            refine List.flatMap_congr fun other hmem => ?_
            rw [hlater other fun heq => hnew (heq ▸ hmem)]
          rw [hreplies, repliesOf_cons, Function.update_self, hrest, List.append_assoc,
            List.map_map]
          rfl

/-- **What a broadcast does to each node**, unless one fails. -/
theorem exists_heard {t : Transmission} {sent : List Transmission}
    (h : broadcastTo (fun _ _ => false) t (List.range n.nodeCount) [] n = (.ok sent, n')) :
    ∃ answer, Heard t (List.range n.nodeCount) n n' answer ∧ sent = n.replies answer := by
  obtain ⟨answer, hheard, hsent⟩ := exists_heard_of_nodup List.nodup_range h
  exact ⟨answer, hheard, hsent⟩

section Heard

variable {t : Transmission} {answer : Nat → List (Message S)}
  (h : Heard t (List.range n.nodeCount) n n' answer)

include h

theorem Heard.coordinator_cases :
    (t.sender = 0 ∧ n'.coordinator = n.coordinator ∧ answer 0 = []) ∨
      (t.sender ≠ 0 ∧ ∃ d, d.Extends n.directory ∧
        n.coordinator.receive n.context d n.now t.frame = (.ok (answer 0), n'.coordinator)) := by
  by_cases hsender : t.sender = 0
  · exact .inl ⟨hsender, h.stays 0 fun _ => hsender.symm, h.silent 0 fun _ => hsender.symm⟩
  · exact .inr ⟨hsender, h.reacts 0 (by simp [nodeCount]) (Ne.symm hsender)⟩

theorem Heard.member_cases {place : Nat} {m' : Member S ρ} (hm' : n'.members[place]? = some m') :
    ∃ m, n.members[place]? = some m ∧
      ((t.sender = place + 1 ∧ m' = m ∧ answer (place + 1) = []) ∨
        (t.sender ≠ place + 1 ∧ ∃ d d', d.Extends n.directory ∧ n'.directory.Extends d' ∧
          m.receive n.context n.now t.frame d = (.ok (answer (place + 1)), m', d'))) := by
  have hlt := (List.getElem?_eq_some_iff.1 hm').1
  rw [h.grows.length] at hlt
  refine ⟨n.members[place], List.getElem?_eq_getElem hlt, ?_⟩
  by_cases hsender : t.sender = place + 1
  · have hstays : n'.members[place]? = n.members[place]? :=
      h.stays (place + 1) fun _ => hsender.symm
    rw [hm', List.getElem?_eq_getElem hlt, Option.some.injEq] at hstays
    exact .inl ⟨hsender, hstays, h.silent _ fun _ => hsender.symm⟩
  · have hmem : place + 1 ∈ List.range n.nodeCount := by
      rw [List.mem_range, nodeCount]
      omega
    obtain ⟨m'', d, d', hm'', hd, hd', hreceive⟩ :=
      h.reacts (place + 1) hmem (Ne.symm hsender) _ (List.getElem?_eq_getElem hlt)
    obtain rfl : m' = m'' := Option.some.inj (hm'.symm.trans hm'')
    exact .inr ⟨hsender, d, d', hd, hd', hreceive⟩

theorem Heard.exists_member {place : Nat} (hplace : place + 1 < n.nodeCount) :
    ∃ m', n'.members[place]? = some m' := by
  have hlt : place < n'.members.length := by
    rw [h.grows.length]
    exact Nat.lt_of_succ_lt_succ hplace
  exact ⟨_, List.getElem?_eq_getElem hlt⟩

end Heard

/-! ## Replies -/

theorem Heard.replies_of_coordinator {t : Transmission} {answer : Nat → List (Message S)}
    (h : Heard t (List.range n.nodeCount) n n' answer)
    (hmembers : ∀ (place : Nat) (m' : Member S ρ), n'.members[place]? = some m' →
      answer (place + 1) = []) :
    n.replies answer = (answer 0).map fun m => ⟨0, m.encode⟩ := by
  refine repliesOf_of_one List.nodup_range (List.mem_range.2 (Nat.succ_pos _)) ?_
  intro node hnode hne
  cases node with
  | zero => exact absurd rfl hne
  | succ place =>
    obtain ⟨m', hm'⟩ := h.exists_member (List.mem_range.1 hnode)
    exact hmembers place m' hm'

theorem Heard.replies_of_member {t : Transmission} {answer : Nat → List (Message S)}
    (h : Heard t (List.range n.nodeCount) n n' answer) {place : Nat} {m : Member S ρ}
    (hm : n.members[place]? = some m) (hcoordinator : answer 0 = [])
    (hothers : ∀ (other : Nat) (m' : Member S ρ), n'.members[other]? = some m' → other ≠ place →
      answer (other + 1) = []) :
    n.replies answer = (answer (place + 1)).map fun m => ⟨place + 1, m.encode⟩ := by
  have hplace : place + 1 < n.nodeCount := Nat.succ_lt_succ (List.getElem?_eq_some_iff.1 hm).1
  refine repliesOf_of_one List.nodup_range (List.mem_range.2 hplace) ?_
  intro node hnode hne
  cases node with
  | zero => exact hcoordinator
  | succ other =>
    obtain ⟨m', hm'⟩ := h.exists_member (List.mem_range.1 hnode)
    exact hothers other m' hm' fun heq => hne (congrArg Nat.succ heq)

/-! ## The queue -/

/-- **What every broadcast keeps holds when the queue is empty.** -/
theorem drain_induction {P : List Transmission → Network S ρ → Prop}
    (hstep : ∀ t queue n n' answer, P (t :: queue) n →
      Heard t (List.range n.nodeCount) n n' answer → P (queue ++ n.replies answer) n')
    {limit : Nat} {queue sent sent' : List Transmission}
    (h : drain (fun _ _ => false) limit queue sent n = ⟨.ok (), sent', n'⟩)
    (hlimit : sent'.length < sent.length + limit) (hP : P queue n) : P [] n' := by
  induction limit generalizing queue sent n with
  | zero =>
    obtain ⟨-, rfl, -⟩ := Round.mk.inj h
    omega
  | succ limit ih =>
    cases queue with
    | nil =>
      obtain ⟨-, -, rfl⟩ := Round.mk.inj h
      exact hP
    | cons t queue =>
      unfold drain at h
      rcases hsent : broadcastTo (fun _ _ => false) t (List.range n.nodeCount) [] n with
        ⟨_ | replies, n₁⟩
      · simp [hsent] at h
      · simp only [hsent] at h
        obtain ⟨answer, hheard, rfl⟩ := exists_heard hsent
        refine ih h ?_ (hstep t queue n n₁ answer hP hheard)
        rw [List.length_append, List.length_singleton]
        omega

end GroupKey.Network
