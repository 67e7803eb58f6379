import GroupKey.Proofs.Session.Superseded

/-!
# What a book keeps of a call

A call that is new enough brings one half of a key. The half stays with the candidate until the key
is adopted or given up, unless the book has too many candidates that nobody confirmed. Then one of
the highest version is dropped, and this may be the one that the call has just brought.

* `Call.half` — the half of a key that a call brings.
* `put` — the book with the candidate of a call put in, before any other is dropped.
* `Keeps` — noting a call drops no candidate of a version.
* `half_of_call` — what a call brings is there after it.
* `any_find?_call` — what a candidate has, it keeps.
* `call_offer_of_room` — bytes that are the first of their version are put in, where there is room.
* `hasKeyFor_offer_iff` — exactly when the bytes of a key are held after they were offered as the
  newest.
-/

namespace GroupKey

instance (f g : Fingerprint) : Decidable (f.Agrees g) := inferInstanceAs (Decidable (_ ∧ _))

theorem Fingerprint.Agrees.symm {f g : Fingerprint} (h : f.Agrees g) : g.Agrees f :=
  ⟨h.1.symm, h.2.symm⟩

theorem Fingerprint.Agrees.trans {f g k : Fingerprint} (h : f.Agrees g) (h' : g.Agrees k) :
    f.Agrees k :=
  ⟨h.1.trans h'.1, h.2.trans h'.2⟩

/-! ## Lists of candidates -/

namespace Candidate

variable {digest digest' : Digest} {f : Candidate → Candidate} {new : Candidate}
  {cs : List Candidate}

theorem find?_upsert_of_ne (hf : ∀ c, (f c).fingerprint = c.fingerprint)
    (hnew : new.HasDigest digest) (hne : digest ≠ digest') :
    (upsert digest f new cs).find? (fun c => c.HasDigest digest') =
      cs.find? fun c => c.HasDigest digest' := by
  have hother : ∀ c : Candidate, c.HasDigest digest → ¬ c.HasDigest digest' := fun c hc hc' =>
    hne (Eq.trans (Eq.symm hc) hc')
  induction cs with
  | nil => simp [upsert, hother new hnew]
  | cons c cs ih =>
    by_cases hc : c.HasDigest digest
    · have hfc : (f c).HasDigest digest := (congrArg Fingerprint.digest (hf c)).trans hc
      simp [upsert, hc, hother c hc, hother (f c) hfc]
    · simp only [upsert, hc, if_false, List.find?_cons, ih]

theorem upsert_of_notMem (h : ∀ c ∈ cs, ¬ c.HasDigest digest) :
    upsert digest f new cs = cs ++ [new] := by
  induction cs with
  | nil => rfl
  | cons c cs ih =>
    rw [upsert, if_neg (h c List.mem_cons_self),
      ih fun c' hc' => h c' (List.mem_cons_of_mem c hc'), List.cons_append]

theorem dropLastUnconfirmed_concat (cs : List Candidate) (h : new.confirmed = false) :
    dropLastUnconfirmed (cs ++ [new]) = cs := by
  simp [dropLastUnconfirmed, h]

theorem unconfirmed_upsert_of_mem (hf : ∀ c, c.confirmed = true → (f c).confirmed = true)
    (h : ∃ c ∈ cs, c.HasDigest digest) : unconfirmed (upsert digest f new cs) ≤ unconfirmed cs := by
  induction cs with
  | nil => simp at h
  | cons c cs ih =>
    by_cases hc : c.HasDigest digest
    · simp only [upsert, hc, if_true, unconfirmed, List.countP_cons]
      cases hconfirmed : c.confirmed with
      | true => simp [hf c hconfirmed]
      | false => split <;> simp
    · have hmem : ∃ c ∈ cs, c.HasDigest digest := by simpa [hc] using h
      have hle := ih hmem
      simp only [upsert, hc, if_false, unconfirmed, List.countP_cons] at hle ⊢
      omega

end Candidate

namespace KeyBook

variable {hash : Bytes → Digest} {b : KeyBook} {f g : Fingerprint} {key : Bytes} {c : Call}
  {p : Candidate → Bool}

theorem find?_congr (h : f.Agrees g) : b.find? f = b.find? g := by
  rw [find?, find?, h.1, h.2]

/-! ## The halves of a key -/

/-- Whether a candidate has the half of its key that the call brings. -/
def Call.half : Call → Candidate → Bool
  | observe _, x => x.confirmed
  | offer _ _, x => x.key.isSome

theorem Call.half_change_self (c : Call) (x : Candidate) : c.half (c.change x) = true := by
  cases c <;> rfl

theorem Call.half_fresh (c : Call) : c.half c.fresh = true := by
  cases c <;> rfl

theorem Call.half_change (c c' : Call) {x : Candidate} (h : c.half x = true) :
    c.half (c'.change x) = true :=
  match c, c' with
  | observe _, observe _ => rfl
  | observe _, offer _ _ => h
  | offer _ _, observe _ => h
  | offer _ _, offer _ _ => rfl

/-! ## Noting a call -/

/-- The book with the candidate of a call put in, and nothing dropped. -/
def put (b : KeyBook) (c : Call) : KeyBook :=
  { b with pending := b.pending.insert c.fingerprint.version (b.noted c) }

theorem candidates_put (b : KeyBook) (c : Call) (v : UInt32) :
    (b.put c).candidates v = if c.fingerprint.version = v then b.noted c else b.candidates v :=
  getD_insert ..

/-- Noting the call drops no candidate of the version. -/
def Keeps (b : KeyBook) (c : Call) (v : UInt32) : Prop :=
  match c with
  | .observe f => f.version ≤ v
  | .offer .. => (b.put c).unconfirmed ≤ maxUnconfirmed

theorem evict_of_unconfirmed_le (h : b.unconfirmed ≤ maxUnconfirmed) : b.evict = b := by
  rw [evict, Nat.sub_eq_zero_of_le h]
  rfl

theorem candidates_note {v : UInt32} (h : b.Keeps c v) :
    (b.note c).candidates v = (b.put c).candidates v := by
  cases c with
  | observe f =>
    have hle : f.version ≤ v := h
    rw [candidates_put, note, candidates, getD_insert,
      getD_filter b.pending v fun w => decide (f.version ≤ w), if_pos (decide_eq_true hle)]
    rfl
  | offer f key => exact congrArg (candidates · v) (evict_of_unconfirmed_le h)

theorem find?_put_self (b : KeyBook) (c : Call) :
    (b.put c).find? c.fingerprint =
      some (((b.find? c.fingerprint).map c.change).getD c.fresh) := by
  rw [find?, candidates_put, if_pos rfl]
  exact b.find?_noted c

theorem find?_put_of_not_agrees (h : ¬ c.fingerprint.Agrees f) : (b.put c).find? f = b.find? f := by
  rw [find?, candidates_put]
  split
  · next hversion =>
    have hne : c.fingerprint.digest ≠ f.digest := fun hdigest => h ⟨hversion, hdigest⟩
    rw [noted, Candidate.find?_upsert_of_ne c.fingerprint_change c.hasDigest_fresh hne, hversion,
      find?]
  · rfl

theorem any_find?_put (hp : ∀ x, p x = true → p (c.change x) = true)
    (h : (b.find? f).any p = true) : ((b.put c).find? f).any p = true := by
  by_cases hagrees : c.fingerprint.Agrees f
  · rw [← find?_congr hagrees] at h ⊢
    rw [find?_put_self]
    cases hx : b.find? c.fingerprint with
    | none => simp [hx] at h
    | some x => simpa using hp x (by simpa [hx] using h)
  · rwa [find?_put_of_not_agrees hagrees]

/-! ## Adoption -/

/-- **An adoption leaves newer candidates as they are.** -/
theorem candidates_adopt (b : KeyBook) {v : UInt32} (h : f.version < v) :
    (b.adopt f).2.candidates v = b.candidates v := by
  have hnext : UInt32.ofNat (min (f.version.toNat + 1) (UInt32.size - 1)) ≤ v := by
    have hsize : UInt32.size = 4294967296 := rfl
    have hv := f.version.toNat_lt
    rw [UInt32.lt_iff_toNat_lt] at h
    rw [UInt32.le_iff_toNat_le, UInt32.toNat_ofNat_of_lt' (by omega)]
    omega
  obtain ⟨next, hdef⟩ : ∃ next,
      UInt32.ofNat (min (f.version.toNat + 1) (UInt32.size - 1)) = next := ⟨_, rfl⟩
  rw [hdef] at hnext
  cases hi : (b.candidates f.version).findIdx?
    (fun c => c.HasDigest f.digest && c.confirmed && c.key.isSome) with
  | none => simp only [adopt, hi]
  | some i =>
    have hlt := (List.findIdx?_eq_some_iff_getElem.1 hi).1
    simp only [adopt, hi, List.getElem?_eq_getElem hlt, hdef]
    rw [candidates, getD_filter _ v fun w => decide (next ≤ w), getD_insert,
      if_pos (decide_eq_true hnext), if_neg (UInt32.ne_of_lt h), ← candidates]

/-! ## Calls -/

/-- A call that is new enough is passed over only if what it brings is there. -/
theorem call_of_isNewer (hnewer : c.fingerprint.IsNewer b.current) (hgenuine : c.IsGenuine hash) :
    b.call hash c = (b.note c).adopt c.fingerprint ∨
      b.call hash c = (false, b) ∧ (b.find? c.fingerprint).any c.half = true := by
  cases c with
  | observe f => exact .inl (observe_of_isNewer hnewer)
  | offer f key =>
    cases hheld : (b.find? f).any (·.key.isSome) with
    | false => exact .inl (offer_of_isNewer hnewer hgenuine hheld)
    | true =>
      refine .inr ⟨?_, hheld⟩
      rw [call, offer, if_neg (not_not_intro ⟨hnewer, hgenuine⟩), hheld, if_pos rfl]

/-- **What a call brings is there after it**: the key is adopted, or its candidate has the half. -/
theorem half_of_call (h : b.Filed) (hnewer : c.fingerprint.IsNewer b.current)
    (hgenuine : c.IsGenuine hash) (hkeeps : b.Keeps c c.fingerprint.version) :
    (b.call hash c).2.current.Agrees c.fingerprint ∧ (b.call hash c).2.key.isSome = true ∨
      ((b.call hash c).2.find? c.fingerprint).any c.half = true := by
  rcases call_of_isNewer hnewer hgenuine with heq | ⟨heq, hhalf⟩ <;> rw [heq]
  · rcases adopt_cases (b.note c) c.fingerprint with ⟨heq, -⟩ | ⟨b', a, rest, heq, ha⟩ <;> rw [heq]
    · refine .inr ?_
      rw [find?, candidates_note hkeeps, ← find?, find?_put_self]
      cases b.find? c.fingerprint with
      | none => exact c.half_fresh
      | some x => exact c.half_change_self x
    · exact .inl ⟨ha.agrees (h.note hnewer), ha.key ▸ ha.complete.2⟩
  · exact .inr hhalf

theorem current_le_call (h : b.Filed) (hash : Bytes → Digest) (c : Call) :
    b.current.version ≤ (b.call hash c).2.current.version := by
  rcases call_cases hash b c with heq | ⟨hnewer, -, heq⟩ <;> rw [heq]
  · exact UInt32.le_rfl
  · rcases adopt_cases (b.note c) c.fingerprint with ⟨heq, -⟩ | ⟨b', a, rest, heq, ha⟩ <;> rw [heq]
    · rw [(note_spec b c).1]
      exact UInt32.le_rfl
    · rw [ha.version (h.note hnewer)]
      exact UInt32.le_of_lt hnewer

/-- **What a candidate has, it keeps**, as long as no key of its version is adopted and the call
drops no candidate of it. -/
theorem any_find?_call (h : b.Filed) (hkeeps : b.Keeps c f.version)
    (hlt : (b.call hash c).2.current.version < f.version)
    (hp : ∀ x, p x = true → p (c.change x) = true) (hx : (b.find? f).any p = true) :
    ((b.call hash c).2.find? f).any p = true := by
  rcases call_cases hash b c with heq | ⟨hnewer, -, heq⟩
  · rwa [heq]
  have hnoted : ((b.note c).find? f).any p = true := by
    rw [find?, candidates_note hkeeps, ← find?]
    exact any_find?_put hp hx
  rw [heq] at hlt ⊢
  rcases adopt_cases (b.note c) c.fingerprint with ⟨heq, -⟩ | ⟨b', a, rest, hadopt, ha⟩
  · rwa [heq]
  · have hbelow : c.fingerprint.version < f.version := by
      rw [hadopt, ha.version (h.note hnewer)] at hlt
      exact hlt
    rwa [find?, candidates_adopt (b.note c) hbelow, ← find?]

/-! ## Bytes that are offered as the newest -/

theorem toNat_max (v w : UInt32) : (max v w).toNat = max v.toNat w.toNat := by
  change (if v ≤ w then w else v).toNat = _
  split
  · next h => exact (Nat.max_eq_right (UInt32.le_iff_toNat_le.1 h)).symm
  · next h => exact (Nat.max_eq_left (Nat.le_of_not_le (mt UInt32.le_iff_toNat_le.2 h))).symm

theorem current_le_highestVersion (b : KeyBook) : b.current.version ≤ b.highestVersion := by
  rw [highestVersion, UInt32.le_iff_toNat_le, toNat_max]
  exact Nat.le_max_right _ _

theorem highestVersion_of_isEmpty (h : b.pending.isEmpty) :
    b.highestVersion = b.current.version := by
  have hempty : b.pending = ∅ := Std.ExtTreeMap.isEmpty_iff.1 h
  rw [highestVersion, hempty, Std.ExtTreeMap.maxKey?_empty, Option.getD_none,
    ← UInt32.toNat_inj, toNat_max]
  exact Nat.max_eq_right (Nat.zero_le _)

theorem le_highestVersion_of_mem {v : UInt32} (h : v ∈ b.pending) : v ≤ b.highestVersion := by
  have hle : v ≤ (b.pending.maxKey?).getD 0 := by
    cases hmax : b.pending.maxKey? with
    | none => simp [Std.ExtTreeMap.maxKey?_eq_none_iff.1 hmax] at h
    | some w =>
      exact Std.isLE_compare.1 ((Std.ExtTreeMap.maxKey?_eq_some_iff_mem_and_forall.1 hmax).2 v h)
  rw [UInt32.le_iff_toNat_le] at hle
  rw [highestVersion, UInt32.le_iff_toNat_le, toNat_max]
  exact hle.trans (Nat.le_max_left _ _)

theorem mem_pending_of_candidates {v : UInt32} (h : b.candidates v ≠ []) : v ∈ b.pending := by
  refine Std.ExtTreeMap.mem_iff_isSome_getElem?.2 ?_
  cases hv : b.pending[v]? with
  | none => simp [candidates, hv] at h
  | some cs => rfl

theorem le_highestVersion {v : UInt32} (h : b.candidates v ≠ []) : v ≤ b.highestVersion :=
  le_highestVersion_of_mem (mem_pending_of_candidates h)

theorem candidates_of_highestVersion_lt {v : UInt32} (h : b.highestVersion < v) :
    b.candidates v = [] := by
  by_contra hne
  exact UInt32.lt_irrefl _ (UInt32.lt_of_lt_of_le h (le_highestVersion hne))

theorem find?_of_candidates (h : b.candidates f.version = []) : b.find? f = none := by
  rw [find?, h, List.find?_nil]

theorem find?_of_highestVersion_lt (h : b.highestVersion < f.version) : b.find? f = none :=
  find?_of_candidates (candidates_of_highestVersion_lt h)

theorem highestVersion_put (h : b.highestVersion ≤ c.fingerprint.version) :
    (b.put c).highestVersion = c.fingerprint.version := by
  have hmax : (b.put c).pending.maxKey? = some c.fingerprint.version := by
    refine Std.ExtTreeMap.maxKey?_eq_some_iff_mem_and_forall.2
      ⟨Std.ExtTreeMap.mem_insert_self, fun w hw => Std.isLE_compare.2 ?_⟩
    rcases Std.ExtTreeMap.mem_insert.1 hw with heq | hmem
    · rw [Std.compare_eq_iff_eq.1 heq]
      exact UInt32.le_rfl
    · exact UInt32.le_trans (le_highestVersion_of_mem hmem) h
  have hcurrent := UInt32.le_trans b.current_le_highestVersion h
  rw [UInt32.le_iff_toNat_le] at hcurrent
  rw [highestVersion, hmax, Option.getD_some, ← UInt32.toNat_inj, toNat_max]
  exact Nat.max_eq_left hcurrent

theorem unconfirmed_put (b : KeyBook) (c : Call) :
    (b.put c).unconfirmed + Candidate.unconfirmed (b.candidates c.fingerprint.version) =
      b.unconfirmed + Candidate.unconfirmed (b.noted c) :=
  b.unconfirmed_insert _ _

/-- An offer drops nothing if there is room for one more, or a candidate for the bytes. -/
theorem keeps_offer (hfew : b.unconfirmed ≤ maxUnconfirmed)
    (h : b.unconfirmed < maxUnconfirmed ∨ (b.find? f).isSome = true) (key : Bytes) (v : UInt32) :
    b.Keeps (.offer f key) v := by
  have hput := b.unconfirmed_put (.offer f key)
  change (b.put (.offer f key)).unconfirmed ≤ maxUnconfirmed
  rcases h with hroom | hsome
  · have hle : Candidate.unconfirmed (b.noted (.offer f key)) ≤
        Candidate.unconfirmed (b.candidates f.version) + 1 :=
      Candidate.unconfirmed_upsert_le fun _ h => h
    simp only [Call.fingerprint] at hput
    omega
  · obtain ⟨x, hx⟩ := Option.isSome_iff_exists.1 hsome
    have hle : Candidate.unconfirmed (b.noted (.offer f key)) ≤
        Candidate.unconfirmed (b.candidates f.version) :=
      Candidate.unconfirmed_upsert_of_mem (fun _ h => h) ⟨x, mem_of_find? hx⟩
    simp only [Call.fingerprint] at hput
    omega

theorem not_hasDigest_of_find? (h : b.find? f = none) :
    ∀ x ∈ b.candidates f.version, ¬ x.HasDigest f.digest := fun x hx hdigest => by
  simpa [hdigest] using List.find?_eq_none.1 h x hx

theorem noted_offer (h : b.find? f = none) (key : Bytes) :
    b.noted (.offer f key) = b.candidates f.version ++ [⟨f, some key, false⟩] :=
  Candidate.upsert_of_notMem (not_hasDigest_of_find? h)

theorem unconfirmed_put_offer (h : b.find? f = none) (key : Bytes) :
    (b.put (.offer f key)).unconfirmed = b.unconfirmed + 1 := by
  have hput := b.unconfirmed_put (.offer f key)
  rw [noted_offer h, Candidate.unconfirmed, Candidate.unconfirmed, List.countP_append,
    Call.fingerprint] at hput
  simp only [List.countP_singleton, Bool.not_false, if_true] at hput
  omega

/-- Where there is room, bytes that are the first of their version are put in, and that is all. -/
theorem call_offer_of_room (hroom : b.unconfirmed < maxUnconfirmed) (hkey : f.Matches hash key)
    (hnewer : f.IsNewer b.current) (hfirst : b.candidates f.version = []) :
    b.call hash (.offer f key) = (false, b.put (.offer f key)) := by
  have hnone := find?_of_candidates hfirst
  have hnote : b.note (.offer f key) = b.put (.offer f key) :=
    evict_of_unconfirmed_le (b := b.put (.offer f key)) (unconfirmed_put_offer hnone key ▸ hroom)
  rw [call, offer_of_isNewer hnewer hkey (by simp [hnone]), hnote]
  rcases adopt_cases (b.put (.offer f key)) f with ⟨heq, -⟩ | ⟨b', a, rest, -, ha⟩
  · exact heq
  · -- the only candidate of its version is not confirmed
    have hmem := ha.mem
    rw [candidates_put, Call.fingerprint, if_pos rfl, noted_offer hnone, hfirst, List.nil_append,
      List.mem_singleton] at hmem
    have hconfirmed := ha.complete.1
    rw [hmem] at hconfirmed
    cases hconfirmed

/-- **A full book drops the newest candidate that is offered**: it is the last one of the highest
version. -/
theorem candidates_evict_put (hfull : b.unconfirmed = maxUnconfirmed) (hnone : b.find? f = none)
    (hhighest : ∀ v, b.candidates v ≠ [] → v ≤ f.version) (key : Bytes) (v : UInt32) :
    (b.put (.offer f key)).evict.candidates v = b.candidates v := by
  obtain ⟨b', hb'⟩ : ∃ b', b.put (.offer f key) = b' := ⟨_, rfl⟩
  have hother {w : UInt32} (hw : w ≠ f.version) : b'.candidates w = b.candidates w := by
    rw [← hb', candidates_put, Call.fingerprint, if_neg hw.symm]
  have hself : b'.candidates f.version = b.candidates f.version ++ [⟨f, some key, false⟩] := by
    rw [← hb', candidates_put, Call.fingerprint, if_pos rfl, noted_offer hnone]
  have hcount : b'.unconfirmed - maxUnconfirmed = 1 := by
    rw [← hb', unconfirmed_put_offer hnone, hfull, Nat.add_sub_cancel_left]
  rw [hb', evict, hcount, Nat.repeat, Nat.repeat]
  rcases b'.evictOne_cases with ⟨hall, -⟩ | ⟨w, h⟩
  · have hconfirmed := hall f.version ⟨f, some key, false⟩ (by simp [hself])
    cases hconfirmed
  -- The version that loses a candidate is that of the offer, which is above all others.
  have hlowest : ¬ w < f.version := fun hlt => by
    have hconfirmed := h.highest f.version hlt ⟨f, some key, false⟩ (by simp [hself])
    cases hconfirmed
  obtain rfl : w = f.version := by
    by_contra hne
    have hmem : b.candidates w ≠ [] := fun hnil => by
      have hany := h.unconfirmed
      rw [hother hne, hnil] at hany
      cases hany
    exact hlowest (UInt32.lt_of_le_of_ne (hhighest w hmem) hne)
  by_cases hv : v = f.version
  · rw [hv, h.candidates, hself, Candidate.dropLastUnconfirmed_concat _ rfl]
  · rw [candidates_congr (h.other v hv), hother hv]

theorem hasKeyFor_congr {b' : KeyBook} (hcurrent : b'.current = b.current) (hkey : b'.key = b.key)
    (hcandidates : b'.candidates f.version = b.candidates f.version) :
    b'.HasKeyFor f ↔ b.HasKeyFor f := by
  rw [HasKeyFor, HasKeyFor, find?, find?, hcurrent, hkey, hcandidates]

theorem call_offer_of_hasKeyFor (h : b.HasKeyFor f) (key : Bytes) :
    b.call hash (.offer f key) = (false, b) := by
  rw [call, offer]
  split
  · rfl
  · next hnew =>
    have hnew := (not_not.1 hnew).1
    rcases h with ⟨hversion, -⟩ | hheld
    · rw [Fingerprint.IsNewer, hversion] at hnew
      exact absurd hnew (UInt32.lt_irrefl _)
    · rw [if_pos hheld]

/-- **Bytes that are offered are held**, if they are new enough and there is room for them. -/
theorem hasKeyFor_offer (h : b.Orderly) (hnewer : f.IsNewer b.current) (hkey : f.Matches hash key)
    (hroom : b.unconfirmed < maxUnconfirmed ∨ (b.find? f).isSome = true) :
    (b.call hash (.offer f key)).2.HasKeyFor f := by
  rcases half_of_call (c := .offer f key) h.toFiled hnewer hkey (keeps_offer h.few hroom key _) with
    ⟨hagrees, hsome⟩ | hhalf
  · exact .inl ⟨hagrees.1, hagrees.2, hsome⟩
  · exact .inr hhalf

/-- **The bytes of a key are held after they were offered as the newest** exactly if they were held
before, or if the key is newer than the adopted one and the book had room for one more candidate or
had this one already. -/
theorem hasKeyFor_offer_iff (h : b.Orderly) (hkey : f.Matches hash key)
    (hhighest : ∀ v, b.candidates v ≠ [] → v ≤ f.version) :
    (b.call hash (.offer f key)).2.HasKeyFor f ↔ b.HasKeyFor f ∨ f.IsNewer b.current ∧
      (b.unconfirmed < maxUnconfirmed ∨ (b.find? f).isSome = true) := by
  constructor
  · intro hheld
    rcases call_cases hash b (.offer f key) with heq | ⟨hnewer, -, heq⟩
    · rw [heq] at hheld
      exact .inl hheld
    by_cases hroom : b.unconfirmed < maxUnconfirmed ∨ (b.find? f).isSome = true
    · exact .inr ⟨hnewer, hroom⟩
    refine .inl ?_
    obtain ⟨hfull, hnone⟩ := not_or.1 hroom
    have hfull : b.unconfirmed = maxUnconfirmed := Nat.le_antisymm h.few (Nat.not_lt.1 hfull)
    have hnone : b.find? f = none := Option.not_isSome_iff_eq_none.1 hnone
    have hcandidates := candidates_evict_put hfull hnone hhighest key f.version
    obtain ⟨hcurrent, hbytes, -⟩ := note_spec b (.offer f key)
    rw [heq] at hheld
    rcases adopt_cases (b.note (.offer f key)) f with ⟨hadopt, -⟩ | ⟨b', a, rest, -, ha⟩
    · rw [Call.fingerprint, hadopt] at hheld
      exact (hasKeyFor_congr hcurrent hbytes hcandidates).1 hheld
    · have hmem := ha.mem
      change a ∈ (b.put (.offer f key)).evict.candidates f.version at hmem
      rw [hcandidates] at hmem
      exact absurd ha.digest (not_hasDigest_of_find? hnone a hmem)
  · rintro (hheld | ⟨hnewer, hroom⟩)
    · rwa [call_offer_of_hasKeyFor hheld]
    · exact hasKeyFor_offer h hnewer hkey hroom

end KeyBook

end GroupKey
