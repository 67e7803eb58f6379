import GroupKey.Proofs.Node.Emission
import GroupKey.Proofs.Wire.Canonical

/-!
# Distributed keys are relayed as they came

A coordinator reads a distributed key, looks at it and writes it again. What it sends is the frame
that it received, since a message has one frame. The exception is the same as for frames: the stated
length of a key for no group is lost on the way.

* `Stimulus.Carries.of_emits` — a coordinator sends no key but one that has just arrived.
* `accepted_frames` — the frames of a message, and the frames that are relayed.
-/

namespace GroupKey.Coordinator

variable {S : Suite} {ρ : Type} {ctx : Context S} {e : Stimulus S}

/-- **A coordinator sends no key but one that has just arrived.** -/
theorem Stimulus.Carries.of_emits {c c' : Coordinator S ρ} {ms : List (Message S)}
    (h : Emits ctx e c c' ms) {m : Message S} (hm : m ∈ ms)
    (hkey : m.distribution?.isSome = true) : e.Carries ctx m := by
  cases h with
  | keyEncap d arrived =>
    obtain rfl := List.mem_singleton.1 hm
    exact arrived
  | keyUpdate d arrived =>
    -- The acknowledgement holds no key.
    rcases List.mem_cons.1 hm with rfl | hm
    · exact arrived
    · obtain rfl := List.mem_singleton.1 hm
      simp [Message.distribution?] at hkey
  | silent | stalled => simp at hm
  | _ =>
    obtain rfl := List.mem_singleton.1 hm
    simp [Message.distribution?] at hkey

variable (ρ) [Generator ρ] in
/-- **Each message has one frame, and keys are relayed in theirs.** The frame that is accepted for a
message is the one that is written for it; only a key for no group has others, which misstate its
length. So messages of all other kinds have no two frames, and a key that a coordinator sends is in
the frame that it has just received, unless that one misstates the length. -/
theorem accepted_frames (G : S.Subgroups) [S.CanonicalPoints] (ctx : Context S) :
    (∀ frame m, Message.decode ctx.parameters frame = .ok m ↔
      m.IsWellFormed G ctx.parameters ∧ (m.encode = frame ∨ m.Misstates frame)) ∧
    (∀ frame frame' m, Message.decode ctx.parameters frame = .ok m →
      Message.decode ctx.parameters frame' = .ok m →
      (∀ d, m.distribution? = some d → d.groups ≠ []) → frame = frame') ∧
    ∀ (c : Coordinator S ρ) (e : Stimulus S), ∀ m ∈ emitted (c.react ctx e).1,
      m.distribution?.isSome = true →
      ∃ frame, e.input = .frame frame ∧ Message.decode ctx.parameters frame = .ok m ∧
        (m.encode = frame ∨ m.Misstates frame) := by
  have hencode {frame : Bytes} {m : Message S} (h : Message.decode ctx.parameters frame = .ok m)
      (hgroups : ∀ d, m.distribution? = some d → d.groups ≠ []) : m.encode = frame := by
    rcases Message.encode_of_decode h with heq | ⟨d, hd, hnone, -⟩
    · exact heq
    · exact absurd hnone (hgroups d hd)
  refine ⟨fun frame m => Message.decode_eq_ok_iff G, ?_, ?_⟩
  · intro frame frame' m h h' hgroups
    rw [← hencode h hgroups, hencode h' hgroups]
  · intro c e m hm hkey
    obtain ⟨frame, hin, hread⟩ := Stimulus.Carries.of_emits (emits_react ctx e c) hm hkey
    rw [Context.decode?_eq_some] at hread
    exact ⟨frame, hin, hread, Message.encode_of_decode hread⟩

/-! ### An update and its frames -/

/-- An update of the session key for the given groups. -/
def sampleUpdate (groups : List GroupId) : Message .sample :=
  .keyUpdate ⟨1, ⟨1, ⟨1000⟩, .zero⟩, groups,
    ⟨Suite.sample.base2, groups.map fun _ => ⟨Suite.sample.base2, [7]⟩⟩⟩

theorem isWellFormed_sampleUpdate {groups : List GroupId} (h : ∀ g ∈ groups, g.IsWellFormed)
    (hsize : (sampleUpdate groups).payload.length < UInt32.size) :
    (sampleUpdate groups).IsWellFormed (.all .sample) sampleContext.parameters := by
  refine ⟨⟨fun hzero => absurd hzero (by simp), h, by simp, ⟨trivial, fun _ _ => trivial, ?_⟩⟩,
    hsize⟩
  intro part hpart
  obtain ⟨g, hg, rfl⟩ := List.mem_map.1 hpart
  cases groups with
  | nil => simp at hg
  | cons g' groups => rfl

theorem mem_emitted_of_sampleUpdate {groups : List GroupId} {frame : Bytes}
    (h : Message.decode sampleContext.parameters frame = .ok (sampleUpdate groups)) :
    sampleUpdate groups ∈
      emitted (sampleNew.react sampleContext ⟨.empty, ⟨1000⟩, .frame frame⟩).1 := by
  have hfresh : IsFresh sampleContext ⟨1000⟩ sampleNew ⟨1, ⟨1000⟩, .zero⟩ := by decide +kernel
  have hlimit : ¬IsRateLimited sampleContext ⟨1000⟩ sampleNew := by decide +kernel
  simp only [react, receive, Context.decode?_eq_some.2 h]
  rw [sampleUpdate, handle, handleKeyUpdate, if_neg (by simp [hfresh, hlimit])]
  exact List.mem_cons_self

/-- An update for a group has one frame, and is relayed in it. -/
theorem accepted_frames_update :
    let update := sampleUpdate [sampleGroup]
    let e : Stimulus .sample := ⟨.empty, ⟨1000⟩, .frame update.encode⟩
    (∀ frame, Message.decode sampleContext.parameters frame = .ok update ↔
        frame = update.encode) ∧
      update ∈ emitted (sampleNew.react sampleContext e).1 ∧
      ∃ frame, e.input = .frame frame ∧
        Message.decode sampleContext.parameters frame = .ok update ∧
        (update.encode = frame ∨ update.Misstates frame) := by
  intro update e
  have hwf : update.IsWellFormed (.all .sample) sampleContext.parameters :=
    isWellFormed_sampleUpdate (by decide +kernel) (by decide +kernel)
  have hgroups : ∀ d, update.distribution? = some d → d.groups ≠ [] := by
    intro d hd
    obtain rfl := Option.some.inj hd
    exact List.cons_ne_nil _ _
  obtain ⟨hiff, hunique, hrelay⟩ := accepted_frames Counter (.all .sample) sampleContext
  have hread := (hiff update.encode update).2 ⟨hwf, .inl rfl⟩
  have hsent : update ∈ emitted (sampleNew.react sampleContext e).1 :=
    mem_emitted_of_sampleUpdate hread
  refine ⟨fun frame => ⟨fun h => hunique frame _ update h hread hgroups, ?_⟩, hsent,
    hrelay sampleNew e update hsent rfl⟩
  rintro rfl
  exact hread

/-- The frame of an update for no group, in which a length of five is stated. -/
def misstatedFrame : Bytes :=
  let written := (sampleUpdate []).encode
  written.take (written.length - 102) ++
    (Bytes.ofUInt32 5 ++ Wire.point2 Suite.sample.base2)

/-- **A frame that is not relayed as it came.** It is accepted, but the length stated in it is
lost. -/
theorem relays_misstated :
    Message.decode sampleContext.parameters misstatedFrame = .ok (sampleUpdate []) ∧
      (sampleUpdate []).encode ≠ misstatedFrame ∧
      sampleUpdate [] ∈
        emitted (sampleNew.react sampleContext ⟨.empty, ⟨1000⟩, .frame misstatedFrame⟩).1 := by
  have hwf : (sampleUpdate []).IsWellFormed (.all .sample) sampleContext.parameters :=
    isWellFormed_sampleUpdate (by simp) (by decide +kernel)
  have hmis : (sampleUpdate []).Misstates misstatedFrame :=
    ⟨_, rfl, rfl, _, 5, by decide, rfl, by decide +kernel⟩
  have hread := Message.decode_of_misstates hwf hmis
  exact ⟨hread, fun h => hmis.ne h.symm, mem_emitted_of_sampleUpdate hread⟩

end GroupKey.Coordinator
