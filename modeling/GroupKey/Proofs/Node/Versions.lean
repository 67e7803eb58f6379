import Mathlib.Order.Bounds.Defs
import GroupKey.Proofs.Node.Distribution
import GroupKey.Proofs.Node.Progress

/-!
# The versions that a member proposes

A key is accepted only if its version is above all that were accepted. So a member gives a key that
it draws the version after the greatest that it knows of: that of its adopted key, those of its
candidates, and the one that it is told of when it is asked for a key. Versions are words, and after
the last of them there is none; a member that knows of the last one draws its keys as that one
again.

* `Knows` — the versions that a member knows of when something arrives.
* `Prompts.isGreatest` — what a key comes after is the greatest of them.
* `version_of_drawn` — the version of every key that a member sends.
* `last_version_again` — a member that is told of the last version.
-/

namespace GroupKey

theorem KeyBook.highestVersion_known (b : KeyBook) :
    b.highestVersion = b.current.version ∨ b.highestVersion ∈ b.pending := by
  have hhighest : b.highestVersion.toNat =
      max ((b.pending.maxKey?).getD 0).toNat b.current.version.toNat := toNat_max _ _
  rcases Nat.le_total ((b.pending.maxKey?).getD 0).toNat b.current.version.toNat with hle | hle
  · exact .inl (UInt32.toNat_inj.1 (hhighest.trans (Nat.max_eq_right hle)))
  · have heq := UInt32.toNat_inj.1 (hhighest.trans (Nat.max_eq_left hle))
    cases hmax : b.pending.maxKey? with
    | none =>
      -- Without candidates the highest version is the one adopted, which is then zero.
      rw [hmax, Option.getD_none] at heq hle
      rw [UInt32.toNat_zero, Nat.le_zero] at hle
      exact .inl (heq.trans (UInt32.toNat_inj.1 hle.symm))
    | some v =>
      rw [hmax, Option.getD_some] at heq
      exact .inr (heq ▸ (Std.ExtTreeMap.maxKey?_eq_some_iff_mem_and_forall.1 hmax).1)

namespace Member

variable {S : Suite} {ρ : Type} {ctx : Context S} {m : Member S ρ}
  {e : Coordinator.Stimulus S} {d : Distribution S} {x : Message S} {seen : UInt32}

/-- The versions that a member knows of when something arrives: that of its adopted key, those that
have candidates, and the one accepted last, if it is told of this with a request for a key. -/
def Knows (ctx : Context S) (e : Coordinator.Stimulus S) (m : Member S ρ) (v : UInt32) : Prop :=
  v = m.session.current.version ∨ v ∈ m.session.pending ∨
    ∃ request, e.Carries ctx (.keyEncapNotify request) ∧ v = request.version

theorem knows_highestVersion : Knows ctx e m m.session.highestVersion := by
  rcases m.session.highestVersion_known with hcurrent | hpending
  · exact .inl hcurrent
  · exact .inr (.inl hpending)

theorem Knows.le_highestVersion {v : UInt32} (h : Knows ctx e m v)
    (hother : ∀ request, e.Carries ctx (.keyEncapNotify request) → v ≠ request.version) :
    v ≤ m.session.highestVersion := by
  rcases h with rfl | hpending | ⟨request, harrived, hv⟩
  · exact m.session.current_le_highestVersion
  · exact KeyBook.le_highestVersion_of_mem hpending
  · exact absurd hv (hother request harrived)

/-- **A key comes after the greatest version that its member knows of.** -/
theorem Prompts.isGreatest (h : Prompts ctx e m d x seen) :
    IsGreatest {v | Knows ctx e m v} seen := by
  cases h with
  | proposal timer =>
    refine ⟨knows_highestVersion, fun v hv => hv.le_highestVersion fun request harrived => ?_⟩
    obtain ⟨frame, hin, -⟩ := harrived
    cases timer.symm.trans hin
  | @request request arrived addressed =>
    have htop := KeyBook.toNat_max request.version m.session.highestVersion
    refine ⟨?_, fun v hv => ?_⟩
    · rcases Nat.le_total request.version.toNat m.session.highestVersion.toNat with hle | hle
      · rw [Nat.max_eq_right hle, UInt32.toNat_inj] at htop
        rw [htop]
        exact knows_highestVersion
      · rw [Nat.max_eq_left hle, UInt32.toNat_inj] at htop
        exact .inr (.inr ⟨request, arrived, htop⟩)
    · rw [UInt32.le_iff_toNat_le, htop]
      by_cases hasked : v = request.version
      · rw [hasked]
        exact Nat.le_max_left _ _
      · refine (UInt32.le_iff_toNat_le.1 (hv.le_highestVersion fun other hother => ?_)).trans
          (Nat.le_max_right _ _)
        obtain rfl : other = request := Message.keyEncapNotify.inj (hother.unique arrived)
        exact hasked

/-- Only what comes after the last version is not newer than all that is known. -/
theorem nextVersion_newest (h : IsGreatest {v | Knows ctx e m v} seen) :
    (∀ v, Knows ctx e m v → v < nextVersion seen) ↔
      ∀ v, Knows ctx e m v → v.toNat + 1 < UInt32.size := by
  constructor
  · intro hnewer v hv
    have hnext := UInt32.lt_iff_toNat_lt.1 (hnewer v hv)
    have hword := (nextVersion seen).toNat_lt
    have hsize : UInt32.size = 4294967296 := rfl
    omega
  · exact fun hlast v hv => lt_nextVersion (h.2 hv) (hlast v hv)

variable [Generator ρ]

theorem react_keyEncapNotify {request : DispatchRequest} (h : m.phase = .joined)
    (he : e.Carries ctx (.keyEncapNotify request)) (hpid : request.pid = m.pid) :
    m.react ctx e =
      let r := m.distribute ctx e.now
        (nextVersion (max request.version m.session.highestVersion)) request.keyLength.toNat
      (.ok [.keyEncap r.1], r.2) := by
  obtain ⟨frame, hin, hread⟩ := he
  simp [react, hin, receive, hread, handle, handleKeyEncapNotify, h, hpid]

/-- **The version of every key that a member sends**, in any state that it can be in. The key is
proposed when it is time to, or drawn for a request that names the member. Its version is the one
after the greatest that the member knows of: after its adopted one, after all that have candidates,
and, if the key is drawn for a request, after the one that the request tells of. It is newer than
all of these, unless one of them is the last version; then it is the last version again. -/
theorem version_of_drawn (hx : x ∈ Coordinator.emitted (m.react ctx e).1)
    (hd : x.distribution? = some d) :
    (e.input = .timer .keyUpdate ∧ x = .keyUpdate d ∨
      ∃ request, e.Carries ctx (.keyEncapNotify request) ∧ request.pid = m.pid ∧
        x = .keyEncap d) ∧
    (∃ top, IsGreatest {v | Knows ctx e m v} top ∧
      d.fingerprint.version.toNat = min (top.toNat + 1) (UInt32.size - 1)) ∧
    ((∀ v, Knows ctx e m v → v < d.fingerprint.version) ↔
      ∀ v, Knows ctx e m v → v.toNat + 1 < UInt32.size) := by
  obtain ⟨-, seen, keyLength, hprompts, hdrawn⟩ := prompts_of_react hx hd
  have hversion : d.fingerprint.version = nextVersion seen := by
    rw [← show _ = d from congrArg Prod.fst hdrawn]
    rfl
  have hgreatest := hprompts.isGreatest
  refine ⟨?_, ⟨seen, hgreatest, ?_⟩, ?_⟩
  · cases hprompts with
    | proposal timer => exact .inl ⟨timer, rfl⟩
    | request arrived addressed => exact .inr ⟨_, arrived, addressed, rfl⟩
  · rw [hversion, toNat_nextVersion]
  · rw [hversion]
    exact nextVersion_newest hgreatest

/-- Member 1 is asked for a key, and told that this version was accepted last. -/
def sampleDemand (version : UInt32) : Coordinator.Stimulus .sample :=
  ⟨.empty, ⟨4000⟩, .frame (Message.encode (S := .sample) (.keyEncapNotify ⟨1, 32, version⟩))⟩

theorem carries_sampleDemand (version : UInt32) :
    (sampleDemand version).Carries sampleContext (.keyEncapNotify ⟨1, 32, version⟩) :=
  Coordinator.carries_encode ⟨trivial, by simp [Message.payload, UInt32.size]⟩ rfl

theorem exists_sampleDrawn (version : UInt32) : ∃ events x d, sampleAdmission? = some events ∧
    x ∈ Coordinator.emitted ((sampleMember.run sampleContext events).react sampleContext
      (sampleDemand version)).1 ∧
    x.distribution? = some d ∧ d.fingerprint.version = nextVersion version := by
  obtain ⟨events, m, hevents, hm, hpid, hjoined, -, -, hhighest⟩ := exists_sampleAdmission
  have hmax : max version m.session.highestVersion = version := by
    rw [hhighest, ← UInt32.toNat_inj, KeyBook.toNat_max]
    exact Nat.max_eq_left (Nat.zero_le _)
  have hreact := react_keyEncapNotify hjoined (carries_sampleDemand version) hpid.symm
  rw [hmax] at hreact
  let drawn := (m.distribute sampleContext ⟨4000⟩ (nextVersion version) (32 : UInt32).toNat).1
  refine ⟨events, .keyEncap drawn, drawn, hevents, ?_, rfl, rfl⟩
  rw [hm, hreact]
  exact List.mem_singleton_self _

/-- A member that is told of version 7 draws its key as version 8, newer than all it knows of. -/
theorem version_of_drawn_eight : ∃ events x d, sampleAdmission? = some events ∧
    x ∈ Coordinator.emitted ((sampleMember.run sampleContext events).react sampleContext
      (sampleDemand 7)).1 ∧
    x.distribution? = some d ∧ d.fingerprint.version = 8 ∧
    ∃ top, IsGreatest {v | Knows sampleContext (sampleDemand 7)
      (sampleMember.run sampleContext events) v} top ∧
      d.fingerprint.version.toNat = min (top.toNat + 1) (UInt32.size - 1) := by
  obtain ⟨events, x, d, hevents, hx, hd, hversion⟩ := exists_sampleDrawn 7
  exact ⟨events, x, d, hevents, hx, hd, hversion, (version_of_drawn hx hd).2.1⟩

/-- **A member that is told of the last version draws its key as that version**, which is then not
newer than all that the member knows of. -/
theorem last_version_again : ∃ events x d, sampleAdmission? = some events ∧
    (sampleMember.run sampleContext events).IsReachable sampleContext ∧
    (sampleDemand 4294967295).Carries sampleContext (.keyEncapNotify ⟨1, 32, 4294967295⟩) ∧
    x ∈ Coordinator.emitted ((sampleMember.run sampleContext events).react sampleContext
      (sampleDemand 4294967295)).1 ∧
    x.distribution? = some d ∧ ¬ 4294967295 < d.fingerprint.version := by
  obtain ⟨events, x, d, hevents, hx, hd, hversion⟩ := exists_sampleDrawn 4294967295
  refine ⟨events, x, d, hevents, isReachable_sample events, carries_sampleDemand _, hx, hd, ?_⟩
  rw [hversion]
  decide

end Member

end GroupKey
