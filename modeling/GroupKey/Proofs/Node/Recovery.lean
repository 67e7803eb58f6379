import GroupKey.Proofs.Node.FreeSlots
import GroupKey.Proofs.Node.KeyRotation
import GroupKey.Proofs.Session.Settled

/-!
# The keys that the coordinator recovers

A member encrypts a session key for every group that it knows of, and what it knows may be out of
date: of the groups that it lists some are gone, some are full, and for some it has an old key. The
coordinator has no slot in any of them. It goes through the list, decrypts each part through a free
slot of its group, and takes the first bytes that have the hash. One group that is still held, with
a free slot and the key that was used, is enough, and what stands before it in the list does not
matter. The key is then adopted in the same step, though the book may still wait for older ones.

* `openPart?`, `recoverFrom_cons` — the search, one group at a time.
* `isSome_recoverFrom` — it ends with a key if any of the groups has one.
* `isSettled_run` — in every run the book is ready for the next key.
* `every_key_recovered` — which keys the coordinator has after it has accepted them.
-/

namespace GroupKey.Coordinator

variable {S : Suite} {ρ : Type} {ctx : Context S} {secrets : SlotSecrets S}
  {c : Coordinator S ρ} {e : Stimulus S} {d : Distribution S} {f : Fingerprint} {ct : Ciphertext S}
  {index : Nat} {id : GroupId} {groups : List GroupId} {g : ManagedGroup S} {key : Bytes}

/-! ## The search -/

/-- What the part `index` gives through a free slot of the group, if that is the key. -/
def openPart? (ctx : Context S) (c : Coordinator S ρ) (f : Fingerprint) (ct : Ciphertext S)
    (index : Nat) (id : GroupId) : Option Bytes := do
  let g ← c.groups[id]?
  let (slot, decryptionKey) ← c.pseudoKey? g
  match ct.decryptWith ctx.parameters decryptionKey slot index with
  | .ok key => if f.Matches S.hash key then some key else none
  | .error _ => none

theorem recoverFrom_cons : recoverFrom ctx c f ct index (id :: groups) =
    (c.openPart? ctx f ct index id).or (recoverFrom ctx c f ct (index + 1) groups) := by
  rw [recoverFrom]
  split
  · next key hkey =>
    rw [show c.openPart? ctx f ct index id = some key from hkey]
    rfl
  · next hnone =>
    rw [show c.openPart? ctx f ct index id = none from hnone]
    rfl

theorem matches_of_openPart? (h : c.openPart? ctx f ct index id = some key) :
    f.Matches S.hash key := by
  obtain ⟨g, -, h⟩ := Option.bind_eq_some_iff.1 h
  obtain ⟨⟨slot, decryptionKey⟩, -, h⟩ := Option.bind_eq_some_iff.1 h
  simp only at h
  split at h
  · split at h
    · next hmatches => exact Option.some.inj h ▸ hmatches
    · simp at h
  · simp at h

theorem matches_of_recoverFrom (h : recoverFrom ctx c f ct index groups = some key) :
    f.Matches S.hash key := by
  induction groups generalizing index with
  | nil => simp [recoverFrom] at h
  | cons id groups ih =>
    rw [recoverFrom_cons, Option.or_eq_some_iff] at h
    rcases h with hpart | ⟨-, hrest⟩
    · exact matches_of_openPart? hpart
    · exact ih hrest

theorem isSome_recoverFrom {i : Nat} (hi : groups[i]? = some id)
    (hpart : (c.openPart? ctx f ct (index + i) id).isSome = true) :
    (recoverFrom ctx c f ct index groups).isSome = true := by
  induction groups generalizing index i with
  | nil => simp at hi
  | cons first groups ih =>
    rw [recoverFrom_cons, Option.isSome_or, Bool.or_eq_true]
    cases i with
    | zero =>
      obtain rfl : first = id := Option.some.inj hi
      exact .inl hpart
    | succ i => exact .inr (ih hi (by rwa [Nat.add_right_comm]))

/-- **A group with a free slot gives the key** that was encrypted for it, among any others. -/
theorem Opens.openPart?_eq_some [S.BilinearPairing] (h : c.Opens ctx secrets)
    (hp : ctx.parameters.IsSetup secrets) (hheld : c.groups[id]? = some g)
    (hfree : g.freeSlots ≠ []) {keys : List (EncryptionKey S)}
    (hkey : keys[index]? = some g.info.key) (hmatches : f.Matches S.hash key) {τ : Type}
    [Generator τ] (r : τ) :
    c.openPart? ctx f (Ciphertext.encrypt ctx.parameters key keys r).1 index id = some key := by
  obtain ⟨slot, decryptionKey, hpseudo, hslot, hopens⟩ := h.exists_pseudoKey? hp hheld hfree
  have hdecrypt := hp.decryptWith_encrypt hslot hopens key hkey r
  simp [openPart?, hheld, hpseudo, hdecrypt, hmatches]

/-! ## The book -/

theorem isSettled_new {pid : UInt32} {generator : ρ}
    (h : Coordinator.new ctx pid secrets generator = .ok c) :
    c.session.IsSettled c.accepted := by
  obtain ⟨tier, -, rfl⟩ := eq_of_new h
  exact KeyBook.isSettled_empty _

theorem adopted_accept (h : c.session.IsSettled c.accepted)
    (hnewer : d.fingerprint.IsNewer c.accepted)
    (hfound : (recoverFrom ctx c d.fingerprint d.ciphertext 0 d.groups).isSome = true)
    (now : Timestamp) :
    (accept ctx now d c).session.current = d.fingerprint ∧
      ∃ key, (accept ctx now d c).session.key = some key ∧ d.fingerprint.Matches S.hash key := by
  obtain ⟨key, hkey⟩ := Option.isSome_iff_exists.1 hfound
  have hmatches := matches_of_recoverFrom hkey
  obtain ⟨-, hcurrent, hadopted⟩ := h.offer_observe hnewer hmatches
  simp only [accept, hkey]
  exact ⟨hcurrent, key, hadopted, hmatches⟩

variable [Generator ρ]

theorem isSettled_react (ctx : Context S) (h : c.session.IsSettled c.accepted) (e : Stimulus S) :
    (c.react ctx e).2.session.IsSettled (c.react ctx e).2.accepted := by
  rcases react_idle_or_accepts ctx e c with hidle | ⟨f, hf⟩
  · rw [hidle.session, hidle.accepted]
    exact h
  · obtain ⟨b, hb, hsession⟩ := hf.session
    rw [hsession, hf.accepted]
    rcases hb with rfl | ⟨key, rfl⟩
    · exact h.observe hf.newer
    · exact h.observe_after hf.newer S.hash key

/-- **The book is always ready for the next key.** -/
theorem isSettled_run (ctx : Context S) (h : c.session.IsSettled c.accepted)
    (events : List (Stimulus S)) :
    (c.run ctx events).session.IsSettled (c.run ctx events).accepted := by
  induction events generalizing c with
  | nil => exact h
  | cons e events ih => exact ih (isSettled_react ctx h e)

/-! ## Runs -/

variable {σ τ : Type} [Generator σ] [Generator τ]

/-- **Every key that can be recovered is.** Let the parameters come from a successful setup, and let
a new coordinator with the unpublished entries take any steps, in which every join that it accepted
had a proof whose entries carry the keys of its maker. Then let it accept a key that was encrypted
to any encryption keys. If one of the groups listed is held and has a free slot, and the key that
stands in its place is the one that the group has, the coordinator has adopted the key: its book is
at the version and the hash, and the bytes in it have the hash. -/
theorem every_key_recovered [S.BilinearPairing] {level : UInt32} {maxGroupSize sizeStep : Nat}
    {r r' : σ} (hsetup : Parameters.setup level maxGroupSize sizeStep r =
      (.ok (ctx.parameters, secrets), r'))
    {pid : UInt32} {generator : ρ} (hnew : Coordinator.new ctx pid secrets generator = .ok c)
    (events : List (Stimulus S)) (hjoins : AdmitsCarried ctx (emissions ctx c events))
    (e : Stimulus S) {x : Message S} (hx : x ∈ emitted ((c.run ctx events).react ctx e).1)
    (hd : x.distribution? = some d) {version : UInt32} {issued : Timestamp}
    (hfingerprint : d.fingerprint = .ofKey S.hash version issued key)
    {keys : List (EncryptionKey S)} {t : τ}
    (hciphertext : d.ciphertext = (Ciphertext.encrypt ctx.parameters key keys t).1) {i : Nat}
    (hlisted : d.groups[i]? = some id) (hheld : (c.run ctx events).groups[id]? = some g)
    (hfree : g.freeSlots ≠ []) (hkey : keys[i]? = some g.info.key) :
    let book := ((c.run ctx events).react ctx e).2.session
    book.current = d.fingerprint ∧
      ∃ k, book.key = some k ∧ S.hash k = d.fingerprint.digest := by
  have hp := Parameters.isSetup_of_setup hsetup
  have hopens := (opens_new hnew).run hp events hjoins
  have hsettled := isSettled_run ctx (isSettled_new hnew) events
  obtain ⟨⟨hnewer, -⟩, dispatcher, haccept⟩ := accepted_of_relayed hx hd
  have hmatches : d.fingerprint.Matches S.hash key := by
    have hpos : 0 < d.fingerprint.version := UInt32.lt_of_le_of_lt UInt32.zero_le hnewer
    refine ⟨hpos, ?_⟩
    rw [hfingerprint] at hpos ⊢
    exact (if_neg (UInt32.ne_of_lt hpos).symm).symm
  have hpart := hopens.openPart?_eq_some hp hheld hfree hkey hmatches t
  rw [← hciphertext, ← Nat.zero_add i] at hpart
  -- Nothing in the search depends on who was asked for the key.
  have hfound : (recoverFrom ctx { c.run ctx events with dispatcher } d.fingerprint d.ciphertext 0
      d.groups).isSome = true := isSome_recoverFrom hlisted (Option.isSome_of_mem hpart)
  obtain ⟨hcurrent, k, hk, -, hhash⟩ :=
    adopted_accept (c := { c.run ctx events with dispatcher }) hsettled hnewer hfound e.now
  rw [haccept]
  exact ⟨hcurrent, k, hk, hhash⟩

/-! ### A key among others -/

/-- Member 1 has joined, and its first key was accepted, which it had encrypted to no group. -/
def sampleUnrecovered? : Option (List (Stimulus .sample)) :=
  sampleJoin?.map (· ++ [⟨.empty, ⟨4000⟩, .frame (Message.encode (S := .sample)
    (.keyUpdate ⟨1, ⟨1, ⟨4000⟩, .zero⟩, [], ⟨0, []⟩⟩))⟩])

/-- The encryption keys of its second key: one that no group has, and that of the group. -/
def sampleKeys (g : ManagedGroup .sample) : List (EncryptionKey .sample) :=
  [⟨Suite.sample.base2, Suite.sample.base1⟩, g.info.key]

/-- The second key, with a group listed before its own that the coordinator does not hold. -/
def sampleSecond (g : ManagedGroup .sample) : Distribution .sample :=
  ⟨1, .ofKey Suite.sample.hash 2 ⟨3000000⟩ [1, 2, 3], [.new 7 0 ⟨9⟩, sampleGroup],
    (Ciphertext.encrypt sampleSetup.1 [1, 2, 3] (sampleKeys g) (Counter.mk 60)).1⟩

/-- The first key is still unknown when the second is recovered through the slot that is free. -/
theorem every_key_recovered_second :
    ∃ events g e x k, sampleUnrecovered? = some events ∧
      let s := sampleNew.run sampleContext events
      s.groups[sampleGroup]? = some g ∧ g.freeSlots = [1] ∧
      s.accepted.version = 1 ∧ s.session.current.version = 0 ∧
      x ∈ emitted (s.react sampleContext e).1 ∧ x.distribution? = some (sampleSecond g) ∧
      (s.react sampleContext e).2.session.current = (sampleSecond g).fingerprint ∧
      (s.react sampleContext e).2.session.key = some k ∧
      Suite.sample.hash k = (sampleSecond g).fingerprint.digest := by
  have hrun : (sampleUnrecovered?.any fun events =>
      let s := sampleNew.run sampleContext events
      decide (s.accepted.version = 1 ∧ s.session.current.version = 0) &&
      ((emissions sampleContext sampleNew events).all fun x =>
        (x.cause.join? sampleContext).all fun join =>
          decide (join.proof.IsCarried sampleContext.parameters x.cause.directory)) &&
      s.groups[sampleGroup]?.any fun g => decide (g.freeSlots = [1]) &&
        (emitted (s.react sampleContext ⟨.empty, ⟨3000000⟩,
          .frame (Message.encode (.keyUpdate (sampleSecond g)))⟩).1).any fun x =>
            decide (x.distribution? = some (sampleSecond g))) = true := by
    decide +kernel
  obtain ⟨events, hevents, hrun⟩ := (Option.any_eq_true _ _).1 hrun
  simp only [Bool.and_eq_true, decide_eq_true_eq] at hrun
  obtain ⟨⟨⟨haccepted, hcurrent⟩, hcarried⟩, hgroup⟩ := hrun
  obtain ⟨g, hheld, hgroup⟩ := (Option.any_eq_true _ _).1 hgroup
  simp only [Bool.and_eq_true, decide_eq_true_eq, List.any_eq_true] at hgroup
  obtain ⟨hfree, x, hx, hd⟩ := hgroup
  have hjoins : AdmitsCarried sampleContext (emissions sampleContext sampleNew events) := by
    intro x hx ack _ join hjoin
    simpa [Stimulus.join?_eq_some.2 hjoin] using List.all_eq_true.1 hcarried x hx
  have hnew : Coordinator.new sampleContext 0 sampleSetup.2 (Counter.mk 5) = .ok sampleNew :=
    eq_ok_of_toOption (by decide +kernel)
  have hfingerprint : (sampleSecond g).fingerprint =
      .ofKey Suite.sample.hash 2 ⟨3000000⟩ [1, 2, 3] := rfl
  have hciphertext : (sampleSecond g).ciphertext =
      (Ciphertext.encrypt sampleSetup.1 [1, 2, 3] (sampleKeys g) (Counter.mk 60)).1 := rfl
  have hlisted : (sampleSecond g).groups[1]? = some sampleGroup := rfl
  have hkey : (sampleKeys g)[1]? = some g.info.key := rfl
  obtain ⟨hadopted, k, hk, hhash⟩ := every_key_recovered setup_sample hnew events hjoins _ hx hd
    hfingerprint hciphertext hlisted hheld (by simp [hfree]) hkey
  exact ⟨events, g, _, x, k, hevents, hheld, hfree, haccepted, hcurrent, hx, hd, hadopted, hk,
    hhash⟩

end GroupKey.Coordinator
