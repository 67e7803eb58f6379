import GroupKey.Proofs.Node.Standing

/-!
# What a step adds to the medium

A step puts the frames of one outcome on the medium and leaves those sent before alone. What is true
of all frames is so because it was true of each when it was sent.

* `Broadcast.Sends` — the state after a step in which a node had a given outcome.
* `Sends.told` — what is true of the messages.
* `Sends.posted` — the last heartbeat tells of all groups, until a join is accepted.
-/

namespace GroupKey

variable {S : Suite} {ρ : Type}

/-! ## Frames that were sent -/

theorem MessageKind.ofFrame?_encode (m : Message S) : ofFrame? m.encode = some m.kind := by
  have htag : m.encode.take 4 = Bytes.ofUInt32 m.kind.tag := by
    rw [Message.encode, List.append_assoc, List.take_left' (Bytes.length_ofUInt32 _)]
  have hlength : 4 ≤ m.encode.length := by
    simp only [Message.encode, List.length_append, Bytes.length_ofUInt32]
    omega
  rw [ofFrame?, if_pos hlength, htag, Bytes.toNatBE_ofUInt32, UInt32.ofNat_toNat]
  cases m.kind <;> rfl

theorem Network.getElem?_sent {result : Except NodeError (List (Message S))} {j : Nat}
    {frame : Bytes} (h : (sent (frames result))[j]? = some frame) :
    ∃ ms x, result = .ok ms ∧ ms[j]? = some x ∧ x.encode = frame := by
  cases result with
  | error e => simp [sent, frames, Except.map] at h
  | ok ms =>
    have h : (ms.map Message.encode)[j]? = some frame := h
    rw [List.getElem?_map, Option.map_eq_some_iff] at h
    obtain ⟨x, hx, hframe⟩ := h
    exact ⟨ms, x, rfl, hx, hframe⟩

theorem Network.encode_mem_sent {ms : List (Message S)} {x : Message S} (hx : x ∈ ms) :
    x.encode ∈ sent (frames (.ok ms)) :=
  List.mem_map_of_mem hx

namespace Broadcast

/-- Neither a heartbeat nor the acknowledgement of a join was sent after a frame. -/
def QuietSince (b : Broadcast S ρ) (index : Nat) : Prop :=
  ∀ frame ∈ b.sent.drop (index + 1),
    MessageKind.ofFrame? frame ≠ some .heartbeat ∧ MessageKind.ofFrame? frame ≠ some .joinAck

instance (b : Broadcast S ρ) (index : Nat) : Decidable (b.QuietSince index) :=
  inferInstanceAs (Decidable (∀ frame ∈ b.sent.drop (index + 1), _))

/-- The last heartbeat tells of all groups as they are, if no join was accepted since. -/
def Posted (b : Broadcast S ρ) : Prop :=
  ∀ index hb, b.message? index = some (.heartbeat hb) → b.QuietSince index →
    ∀ (id : GroupId) (g : ManagedGroup S), b.network.coordinator.groups[id]? = some g →
      g.info ∈ hb.groups

/-- The state after a step in which a node had the given outcome. -/
structure Sends (b : Broadcast S ρ) (result : Except NodeError (List (Message S)))
    (b' : Broadcast S ρ) : Prop where
  context : b'.network.context = b.network.context
  sent : b'.sent = b.sent ++ Network.sent (Network.frames result)
  directory : b'.network.directory.Extends b.network.directory

namespace Sends

variable {b b' : Broadcast S ρ} {result : Except NodeError (List (Message S))}

theorem grows (h : b.Sends result b') : b.Grows b' :=
  ⟨h.context, h.sent ▸ List.prefix_append _ _, h.directory⟩

theorem message?_cases (h : b.Sends result b') {index : Nat} {m : Message S}
    (hm : b'.message? index = some m) :
    (index < b.sent.length ∧ b.message? index = some m) ∨
      ∃ j ms x, index = b.sent.length + j ∧ result = .ok ms ∧ ms[j]? = some x ∧
        Message.decode b.network.context.parameters x.encode = .ok m := by
  obtain ⟨frame, hframe, hm⟩ := Option.bind_eq_some_iff.1 hm
  rw [h.context] at hm
  rw [h.sent] at hframe
  rcases Nat.lt_or_ge index b.sent.length with hlt | hge
  · rw [List.getElem?_append_left hlt] at hframe
    exact Or.inl ⟨hlt, Option.bind_eq_some_iff.2 ⟨frame, hframe, hm⟩⟩
  · rw [List.getElem?_append_right hge] at hframe
    obtain ⟨ms, x, hms, hx, rfl⟩ := Network.getElem?_sent hframe
    refine Or.inr ⟨index - b.sent.length, ms, x, by omega, hms, hx, ?_⟩
    unfold Context.decode? at hm
    split at hm
    · next hdecode => exact Option.some.inj hm ▸ hdecode
    · simp at hm

theorem told [S.AbelianSources] [S.FaithfulPoints] (h : b.Sends result b')
    {stamps stamps' : Nat → Finset Nat} (hsame : ∀ i < b.sent.length, stamps' i = stamps i)
    (hold : ∀ i m, b.message? i = some m → b.Told i (stamps i) m)
    (hnew : ∀ ms, result = .ok ms → ∀ j x, ms[j]? = some x →
      b.Told (b.sent.length + j) (stamps' (b.sent.length + j)) x) :
    ∀ i m, b'.message? i = some m → b'.Told i (stamps' i) m := by
  intro i m hm
  rcases h.message?_cases hm with ⟨hi, hm⟩ | ⟨j, ms, x, rfl, hms, hx, hdecode⟩
  · rw [hsame i hi]
    exact (hold i m hm).grow h.grows
  · exact ((hnew ms hms j x hx).of_decode hdecode).grow h.grows

theorem posted [S.FaithfulPoints] (h : b.Sends result b') (hposted : b.Posted)
    (hold : (∀ ms, result = .ok ms → ∀ x ∈ ms, x.kind ≠ .heartbeat ∧ x.kind ≠ .joinAck) →
      ∀ (id : GroupId) (g : ManagedGroup S), b'.network.coordinator.groups[id]? = some g →
        b.network.coordinator.groups[id]? = some g)
    (hnew : ∀ ms, result = .ok ms → ∀ hb, .heartbeat hb ∈ ms →
      (∀ g ∈ hb.groups, g.IsOrdered b.network.context.parameters) ∧
      ∀ (id : GroupId) (g : ManagedGroup S), b'.network.coordinator.groups[id]? = some g →
        g.info ∈ hb.groups) : b'.Posted := by
  intro index hb hm hquiet id g hg
  rcases h.message?_cases hm with ⟨hlt, hm⟩ | ⟨j, ms, x, rfl, hms, hx, hdecode⟩
  · have hdrop : b'.sent.drop (index + 1) =
        b.sent.drop (index + 1) ++ Network.sent (Network.frames result) := by
      rw [h.sent, List.drop_append_of_le_length hlt]
    have hquiet' : b.QuietSince index := fun frame hframe =>
      hquiet frame (hdrop ▸ List.mem_append_left _ hframe)
    refine hposted index hb hm hquiet' id g (hold ?_ id g hg)
    intro ms hms x hx
    have hframe := hquiet x.encode
      (hdrop ▸ List.mem_append_right _ (hms ▸ Network.encode_mem_sent hx))
    rw [MessageKind.ofFrame?_encode] at hframe
    exact ⟨fun he => hframe.1 (congrArg some he), fun he => hframe.2 (congrArg some he)⟩
  · have hkind := Message.kind_of_decode hdecode
    cases x with
    | heartbeat hb' =>
      obtain ⟨hordered, hall⟩ := hnew ms hms hb' (List.mem_of_getElem? hx)
      obtain ⟨hb'', heq, hgroups⟩ :=
        Message.groups_of_decode (fun g hg => (hordered g hg).isSized) hdecode
      obtain rfl := Message.heartbeat.inj heq
      rw [hgroups]
      exact hall id g hg
    | _ => cases hkind

end Sends

end Broadcast

end GroupKey
