import GroupKey.Proofs.Session.Adoption

/-!
# What a book of session keys may adopt

A book adopts a key only if the fingerprint was confirmed, and fingerprints are confirmed by
observing them. Whatever else is offered, and in whatever order, the adopted fingerprint has the
version and the hash of one that was observed.

* `Vouched` — the version and hash of a fingerprint stand in a list.
* `Candidate.Sound`, `KeyBook.Backed` — what holds of all candidates, and of the whole book.
* `Backed.call` — a call keeps this; `Backed.observe`, `Backed.offer` — both kinds of calls.
-/

namespace GroupKey

/-- A fingerprint of the list has the version and the hash of this one. -/
def Vouched (log : List Fingerprint) (f : Fingerprint) : Prop :=
  ∃ a ∈ log, a.version = f.version ∧ a.digest = f.digest

theorem Vouched.mono {log log' : List Fingerprint} {f : Fingerprint} (h : Vouched log f)
    (hsub : log ⊆ log') : Vouched log' f := by
  obtain ⟨a, ha, heq⟩ := h
  exact ⟨a, hsub ha, heq⟩

namespace Candidate

/-- A candidate filed under `version` is of this version, and vouched for if it is confirmed. -/
structure Sound (log : List Fingerprint) (version : UInt32) (c : Candidate) : Prop where
  version : c.fingerprint.version = version
  vouched : c.confirmed = true → Vouched log c.fingerprint

theorem Sound.mono {log log' : List Fingerprint} {version : UInt32} {c : Candidate}
    (h : c.Sound log version) (hsub : log ⊆ log') : c.Sound log' version :=
  ⟨h.version, fun hc => (h.vouched hc).mono hsub⟩

end Candidate

namespace KeyBook

/-! ## Books of which all candidates are sound -/

/-- All candidates are sound under their version. -/
def Sound (log : List Fingerprint) (pending : Std.ExtTreeMap UInt32 (List Candidate)) : Prop :=
  ∀ (version : UInt32) (cs : List Candidate), pending[version]? = some cs →
    ∀ c ∈ cs, c.Sound log version

/-- Nothing is adopted, or what is adopted is vouched for; and so are the candidates that are
confirmed. -/
structure Backed (log : List Fingerprint) (b : KeyBook) : Prop where
  current : b.current = .zero ∨ (0 < b.current.version ∧ Vouched log b.current)
  pending : Sound log b.pending

variable {log : List Fingerprint} {b : KeyBook}

theorem sound_iff : Sound log b.pending ↔ ∀ v, ∀ c ∈ b.candidates v, c.Sound log v := by
  constructor
  · intro h v c hc
    cases hcs : b.pending[v]? with
    | none => simp [candidates, hcs] at hc
    | some cs =>
      rw [candidates, hcs] at hc
      exact h v cs hcs c hc
  · intro h v cs hcs c hc
    refine h v c ?_
    rwa [candidates, hcs]

theorem backed_empty (log : List Fingerprint) : Backed log .empty :=
  ⟨Or.inl rfl, fun v cs hv => by simp [empty] at hv⟩

theorem Backed.mono (h : b.Backed log) {log' : List Fingerprint} (hsub : log ⊆ log') :
    b.Backed log' :=
  ⟨h.current.imp_right fun hc => ⟨hc.1, hc.2.mono hsub⟩,
    fun v cs hv c hc => (h.pending v cs hv c hc).mono hsub⟩

/-! ## The steps of a book -/

theorem sound_note (h : Sound log b.pending) {c : Call}
    (hvouched : ∀ f, c = .observe f → Vouched log f) {v : UInt32} {x : Candidate}
    (hx : x ∈ (b.note c).candidates v) : x.Sound log v := by
  have hold := sound_iff.1 h
  rcases mem_note hx with hx | ⟨rfl, rfl | ⟨x₀, hx₀, hdigest, rfl⟩⟩
  · exact hold v x hx
  · cases c with
    | observe f => exact ⟨rfl, fun _ => hvouched f rfl⟩
    | offer f key => exact ⟨rfl, fun hconfirmed => by simp [Call.fresh] at hconfirmed⟩
  · have hsound := hold _ x₀ hx₀
    cases c with
    | observe f =>
      obtain ⟨a, ha, hversion, hd⟩ := hvouched f rfl
      exact ⟨hsound.version, fun _ =>
        ⟨a, ha, hversion.trans hsound.version.symm, hd.trans (Eq.symm hdigest)⟩⟩
    | offer f key => exact ⟨hsound.version, hsound.vouched⟩

/-- **A call keeps the book backed**, if what it confirms is vouched for: only what is confirmed is
adopted. -/
theorem Backed.call (h : b.Backed log) (hash : Bytes → Digest) (c : Call)
    (hvouched : ∀ f, c = .observe f → 0 < f.version → Vouched log f) :
    (b.call hash c).2.Backed log := by
  rcases call_cases hash b c with heq | ⟨hnewer, -, heq⟩ <;> rw [heq]
  · exact h
  have hpos : 0 < c.fingerprint.version := UInt32.lt_of_le_of_lt UInt32.zero_le hnewer
  have hnoted : ∀ v, ∀ x ∈ (b.note c).candidates v, x.Sound log v := fun v x =>
    sound_note h.pending fun f hf => hvouched f hf (by rwa [hf] at hpos)
  rcases adopt_cases (b.note c) c.fingerprint with ⟨heq, -⟩ | ⟨b', a, rest, heq, ha⟩ <;> rw [heq]
  · exact ⟨(note_spec b c).1 ▸ h.current, sound_iff.2 hnoted⟩
  · have hsound := hnoted _ a ha.mem
    refine ⟨.inr ?_, sound_iff.2 fun v x hx => ?_⟩
    · rw [ha.current]
      exact ⟨hsound.version ▸ hpos, hsound.vouched ha.complete.1⟩
    · exact hnoted v x (ha.mem_of_mem hx)

theorem Backed.observe (h : b.Backed log) {f : Fingerprint}
    (hf : 0 < f.version → Vouched log f) : (b.observe f).2.Backed log :=
  h.call (fun _ => f.digest) (.observe f) fun _ heq => Call.observe.inj heq ▸ hf

theorem Backed.offer (h : b.Backed log) (hash : Bytes → Digest) (f : Fingerprint) (key : Bytes) :
    (b.offer hash f key).2.Backed log :=
  h.call hash (.offer f key) fun _ heq => by cases heq

end KeyBook

end GroupKey
