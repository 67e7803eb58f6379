import GroupKey.Proofs.Node.Resilience

/-!
# A frame is taken or it leaves no trace

A coordinator turns frames away in about ten places: the join is not the one awaited, its slot is
taken by now, its proof does not hold; the key is not from the member that was asked, is not new,
comes too late or too soon. Some of these places lie between updates of the state. All the same, a
frame that is not answered has changed nothing, except that the check of a proof has drawn its
weights. Answers to heartbeats are another matter: they are noted without a word.

* `Disposes` — a message is dropped without a trace, or taken and answered.
* `Handles.disposes` — there is nothing in between.
* `dropped_frame_keeps` — the same for any bytes, after any run.
-/

namespace GroupKey.Coordinator

variable {S : Suite} {ρ σ : Type} [Generator ρ] [Generator σ]

/-! ## Taken or dropped -/

/-- The message is the join that is awaited, whatever its proof is worth. -/
def Awaits (c : Coordinator S ρ) (m : Message S) : Prop :=
  ∃ join, m = .join join ∧ c.assignment = some ⟨join.proof.group, join.proof.slot, join.pid⟩

/-- What becomes of a message that is no answer to a heartbeat. -/
inductive Disposes (ctx : Context S) (directory : Directory S) (now : Timestamp) (m : Message S)
    (c : Coordinator S ρ) : List (Message S) → Coordinator S ρ → Prop
  /-- It is dropped. Weights are drawn only for the proof of the join that is awaited. -/
  | dropped (refused : ¬c.Takes ctx directory now m) (generator : ρ)
      (drawn : generator = c.generator ∨ c.Awaits m) :
      Disposes ctx directory now m c [] { c with generator }
  /-- It is taken and answered. -/
  | taken (takes : c.Takes ctx directory now m) {answer : Message S} {answers : List (Message S)}
      {c' : Coordinator S ρ} : Disposes ctx directory now m c (answer :: answers) c'

variable {ctx : Context S} {secrets : SlotSecrets S} {directory : Directory S} {now : Timestamp}
  {c c' : Coordinator S ρ} {m : Message S} {ms : List (Message S)}

theorem kind_of_takes (h : c.Takes ctx directory now m) :
    m.kind ∈ [MessageKind.join, .keyEncap, .keyUpdate] := by
  cases m with
  | join | keyEncap | keyUpdate => simp [Message.kind]
  | _ => exact h.elim

theorem Disposes.answered_iff (h : Disposes ctx directory now m c ms c') :
    ms ≠ [] ↔ c.Takes ctx directory now m := by
  cases h with
  | dropped refused => simpa using refused
  | taken takes => simpa using takes

/-- **A message is dropped without a trace, or taken and answered.** -/
theorem Handles.disposes {r : Except NodeError (List (Message S)) × Coordinator S ρ}
    (h : Handles ctx directory now c m r) (hp : ctx.parameters.IsSetup secrets)
    (hc : c.IsConsistent ctx) (hm : ∀ ack, m ≠ .heartbeatAck ack) :
    ∃ ms c', r = (.ok ms, c') ∧ Disposes ctx directory now m c ms c' := by
  -- Nothing fails, so an answer is there and only remains to be looked at.
  obtain ⟨ms, c', rfl, -⟩ := h.answers hp hc
  refine ⟨ms, c', rfl, ?_⟩
  cases h with
  | noted | placed => exact absurd rfl (hm _)
  | dropped other refused => exact .dropped refused c.generator (.inl rfl)
  | @early join idle =>
    refine .dropped ?_ c.generator (.inl rfl)
    rintro ⟨g, hadmits⟩
    -- A join is awaited in one phase only.
    exact idle (hc.awaited.2 (by simp [hadmits.assigned]))
  | refuted assigned held tier free invalid =>
    refine .dropped ?_ _ (.inr ⟨_, rfl, assigned⟩)
    rintro ⟨g, hadmits⟩
    exact invalid hadmits.valid
  | seated admits seat =>
    have htakes : c.Takes ctx directory now (.join _) := ⟨_, admits⟩
    exact .taken htakes
  | answered asked fresh =>
    have htakes : c.Takes ctx directory now (.keyEncap _) := ⟨asked, fresh⟩
    exact .taken htakes
  | proposed fresh unlimited =>
    have htakes : c.Takes ctx directory now (.keyUpdate _) := ⟨fresh, unlimited⟩
    exact .taken htakes

/-! ## Runs -/

/-- **A dropped frame leaves the coordinator as it was.** Let the parameters come from a successful
setup, and let a new coordinator take any steps. Then it is given a frame of any bytes that is no
answer to a heartbeat, with any directory and at any time. It answers a join, a key that was asked
for or a proposed key, just if that is one to be taken. Without an answer its whole state is as
before, up to the generator; and that moves on only for the join that is awaited. -/
theorem dropped_frame_keeps {level : UInt32} {maxGroupSize sizeStep : Nat} {r r' : σ}
    (hsetup : Parameters.setup level maxGroupSize sizeStep r =
      (.ok (ctx.parameters, secrets), r'))
    {pid : UInt32} {generator : ρ} (hnew : Coordinator.new ctx pid secrets generator = .ok c)
    (events : List (Stimulus S)) (directory : Directory S) (now : Timestamp) (frame : Bytes)
    (hframe : ∀ ack, ctx.decode? frame ≠ some (.heartbeatAck ack)) :
    let s := c.run ctx events
    ∃ ms s', s.receive ctx directory now frame = (.ok ms, s') ∧
      (ms = [] → ∃ generator, s' = { s with generator } ∧ (generator = s.generator ∨
        ∃ m, ctx.decode? frame = some m ∧ s.Awaits m)) ∧
      (ms ≠ [] → ∃ m, ctx.decode? frame = some m ∧
        m.kind ∈ [MessageKind.join, .keyEncap, .keyUpdate]) ∧
      (ms ≠ [] ↔ ∃ m, ctx.decode? frame = some m ∧ s.Takes ctx directory now m) := by
  intro s
  have hp := Parameters.isSetup_of_setup hsetup
  have hs : s.IsConsistent ctx := (state_new hnew).1.run hp.hasNumberedSlots events
  unfold receive
  cases hm : ctx.decode? frame with
  | none => exact ⟨[], s, rfl, fun _ => ⟨s.generator, rfl, .inl rfl⟩, by simp, by simp⟩
  | some m =>
    have hother : ∀ ack, m ≠ .heartbeatAck ack := fun ack hack =>
      hframe ack (hm.trans (congrArg some hack))
    obtain ⟨ms, s', hanswer, hdisposes⟩ :=
      (handles_handle ctx directory now m s).disposes hp hs hother
    simp only [Option.some.injEq, exists_eq_left']
    refine ⟨ms, s', hanswer, fun hnil => ?_, fun hanswered => ?_, hdisposes.answered_iff⟩
    · cases hdisposes with
      | dropped _ generator drawn => exact ⟨generator, rfl, drawn⟩
      | taken => simp at hnil
    · exact kind_of_takes (hdisposes.answered_iff.1 hanswered)

/-- Member 1 was handed a slot and its join arrives, but the directory has another key under the
number of its proof. The proof is checked and turned away. -/
theorem dropped_frame_keeps_forged_key :
    ∃ e frame join generator, (sampleJoin?.bind (·[2]?)) = some e ∧ e.input = .frame frame ∧
      sampleContext.decode? frame = some (.join join) ∧
      let s := sampleNew.run sampleContext sampleOpening
      let directory := (Directory.empty.upload join.proof.keyId
        ⟨Suite.sample.base1, Suite.sample.base1⟩).2
      s.Awaits (.join join) ∧
        s.receive sampleContext directory ⟨3000⟩ frame = (.ok [], { s with generator }) := by
  have hrun : ((sampleJoin?.bind (·[2]?)).any fun e =>
      (e.join? sampleContext).any fun join =>
        let s := sampleNew.run sampleContext sampleOpening
        decide (s.assignment = some ⟨join.proof.group, join.proof.slot, join.pid⟩) &&
          (emitted (s.react sampleContext ⟨(Directory.empty.upload join.proof.keyId
            ⟨Suite.sample.base1, Suite.sample.base1⟩).2, ⟨3000⟩, e.input⟩).1).isEmpty) = true := by
    decide +kernel
  obtain ⟨e, he, hrun⟩ := (Option.any_eq_true _ _).1 hrun
  obtain ⟨join, hjoin, hrun⟩ := (Option.any_eq_true _ _).1 hrun
  simp only [Bool.and_eq_true, decide_eq_true_eq, List.isEmpty_iff] at hrun
  obtain ⟨hawaited, hsilent⟩ := hrun
  obtain ⟨frame, hframe, hread⟩ := Stimulus.join?_eq_some.1 hjoin
  have hnew : Coordinator.new sampleContext 0 sampleSetup.2 (Counter.mk 5) = .ok sampleNew :=
    eq_ok_of_toOption (by decide +kernel)
  obtain ⟨ms, s', hanswer, hdropped, -⟩ := dropped_frame_keeps setup_sample hnew sampleOpening
    (Directory.empty.upload join.proof.keyId ⟨Suite.sample.base1, Suite.sample.base1⟩).2 ⟨3000⟩
    frame (by simp [hread])
  obtain rfl : ms = [] := by simpa [react, hframe, hanswer, emitted] using hsilent
  obtain ⟨generator, rfl, -⟩ := hdropped rfl
  exact ⟨e, frame, join, generator, he, hframe, hread, ⟨join, rfl, hawaited⟩, hanswer⟩

end GroupKey.Coordinator
