import GroupKey.Proofs.Maps
import GroupKey.Session.KeyBook
import Mathlib.Data.List.Induction
import Mathlib.Data.List.Nodup

/-!
# How a book comes to its key

A book is told of confirmed fingerprints and of keys, by anyone and in any order. Each call is
passed over, or it is noted with the candidates of its version; then the candidate that it concerns
is adopted if both halves of it are there. So a candidate never has both halves for longer than a
call, and what is adopted was observed and offered.

* `Call`, `run` — what a book is told, and the book after it.
* `note`, `call_cases` — every call is passed over, or noted and then followed by an adoption.
* `Adopts`, `adopt_cases` — an adoption takes one complete candidate and gives up all older ones.
* `evictOne_cases`, `evict_induction` — what is dropped was the last that nobody confirmed.
* `Orderly`, `Orderly.call` — candidates are in their places, and few of them are unconfirmed.
* `Accounted` — candidates have what they have from the calls.
* `book_of_calls` — the book after any calls, and what one more call does to its version.
-/

namespace GroupKey

/-- The two stand for the same key, whenever they were issued. -/
def Fingerprint.Agrees (f g : Fingerprint) : Prop := f.version = g.version ∧ f.digest = g.digest

theorem Fingerprint.Agrees.refl (f : Fingerprint) : f.Agrees f := ⟨rfl, rfl⟩

/-! ## Lists of candidates -/

namespace Candidate

/-- Both halves of the key have arrived. -/
def IsComplete (c : Candidate) : Prop := c.confirmed = true ∧ c.key.isSome = true

/-- The hashes of the candidates. -/
def digests (cs : List Candidate) : List Digest := cs.map (·.fingerprint.digest)

/-- How many of the candidates nobody has confirmed. -/
def unconfirmed (cs : List Candidate) : Nat := cs.countP fun c => !c.confirmed

variable {digest : Digest} {f : Candidate → Candidate} {new : Candidate} {cs : List Candidate}

theorem mem_upsert {c : Candidate} (h : c ∈ upsert digest f new cs) :
    c = new ∨ c ∈ cs ∨ ∃ c₀ ∈ cs, c₀.HasDigest digest ∧ c = f c₀ := by
  induction cs with
  | nil => exact Or.inl (List.mem_singleton.1 h)
  | cons a as ih =>
    unfold upsert at h
    split at h
    · next ha =>
      rcases List.mem_cons.1 h with rfl | h
      · exact Or.inr (Or.inr ⟨a, List.mem_cons_self, ha, rfl⟩)
      · exact Or.inr (Or.inl (List.mem_cons_of_mem _ h))
    · rcases List.mem_cons.1 h with rfl | h
      · exact Or.inr (Or.inl List.mem_cons_self)
      · rcases ih h with h | h | ⟨c₀, hc₀, h⟩
        · exact Or.inl h
        · exact Or.inr (Or.inl (List.mem_cons_of_mem _ h))
        · exact Or.inr (Or.inr ⟨c₀, List.mem_cons_of_mem _ hc₀, h⟩)

theorem digests_upsert (hf : ∀ c, (f c).fingerprint = c.fingerprint)
    (hnew : new.HasDigest digest) :
    digests (upsert digest f new cs) =
      if digest ∈ digests cs then digests cs else digests cs ++ [digest] := by
  induction cs with
  | nil => exact congrArg (· :: []) hnew
  | cons c cs ih =>
    by_cases hc : c.HasDigest digest
    · have hc' : c.fingerprint.digest = digest := hc
      simp [upsert, hc, digests, hf, hc']
    · have hc' : digest ≠ c.fingerprint.digest := fun heq => hc heq.symm
      have hcons : ∀ cs, digests (c :: cs) = c.fingerprint.digest :: digests cs := fun _ => rfl
      simp only [upsert, hc, if_false, hcons, ih, List.mem_cons, hc', false_or]
      split <;> rfl

theorem nodup_digests_upsert (hf : ∀ c, (f c).fingerprint = c.fingerprint)
    (hnew : new.HasDigest digest) (h : (digests cs).Nodup) :
    (digests (upsert digest f new cs)).Nodup := by
  rw [digests_upsert hf hnew]
  split
  · exact h
  · next hmem => exact List.Nodup.append h (List.nodup_singleton _) (by simpa using hmem)

/-- A candidate that changes gets no less confirmed, and one is added. -/
theorem unconfirmed_upsert_le (hf : ∀ c, c.confirmed = true → (f c).confirmed = true) :
    unconfirmed (upsert digest f new cs) ≤ unconfirmed cs + unconfirmed [new] := by
  induction cs with
  | nil => exact Nat.le_add_left _ _
  | cons c cs ih =>
    by_cases hc : c.HasDigest digest
    · have hle : (if !(f c).confirmed then 1 else 0) ≤ if !c.confirmed then 1 else 0 := by
        cases hconfirmed : c.confirmed with
        | true => simp [hf c hconfirmed]
        | false => split <;> simp
      simp only [upsert, hc, if_true, unconfirmed, List.countP_cons]
      omega
    · simp only [upsert, hc, if_false, unconfirmed, List.countP_cons] at ih ⊢
      omega

theorem swapRemove_perm {i : Nat} (h : i < cs.length) : (swapRemove i cs).Perm (cs.eraseIdx i) := by
  obtain ⟨as, last, rfl⟩ : ∃ as last, cs = as ++ [last] :=
    ⟨_, _, (List.dropLast_append_getLast (List.ne_nil_of_length_pos (by omega))).symm⟩
  rw [List.length_append, List.length_singleton] at h
  rw [swapRemove, List.getLast?_concat]
  simp only
  rcases Nat.lt_or_eq_of_le (Nat.le_of_lt_succ h) with hi | rfl
  · rw [List.set_append_left _ _ hi, List.dropLast_concat, List.eraseIdx_append_of_lt_length hi]
    exact (List.set_perm_cons_eraseIdx hi last).trans (List.perm_append_singleton _ _).symm
  · rw [List.set_append_right _ _ (Nat.le_refl _), Nat.sub_self, List.set_cons_zero,
      List.dropLast_concat, List.eraseIdx_append_of_length_le (Nat.le_refl _), Nat.sub_self]
    simp

theorem dropLastUnconfirmed_sublist (cs : List Candidate) :
    (dropLastUnconfirmed cs).Sublist cs := by
  have h := (List.eraseP_sublist (p := fun c : Candidate => !c.confirmed) (l := cs.reverse)).reverse
  rwa [List.reverse_reverse] at h

/-- The last unconfirmed candidate is the one to be dropped: all after it are confirmed. -/
theorem exists_last_unconfirmed (h : cs.any (!·.confirmed) = true) :
    ∃ before c after, cs = before ++ c :: after ∧ c.confirmed = false ∧
      (∀ x ∈ after, x.confirmed = true) ∧ dropLastUnconfirmed cs = before ++ after := by
  obtain ⟨c, hc, hp⟩ := List.any_eq_true.1 h
  obtain ⟨a, l₁, l₂, hall, ha, hsplit, herase⟩ :=
    List.exists_of_eraseP (p := fun c : Candidate => !c.confirmed) (List.mem_reverse.2 hc) hp
  refine ⟨l₂.reverse, a, l₁.reverse, ?_, by simpa using ha, fun x hx => ?_, ?_⟩
  · rw [← List.reverse_reverse cs, hsplit]
    simp
  · simpa using hall x (List.mem_reverse.1 hx)
  · rw [dropLastUnconfirmed, herase]
    simp

theorem unconfirmed_dropLastUnconfirmed (h : cs.any (!·.confirmed) = true) :
    unconfirmed (dropLastUnconfirmed cs) + 1 = unconfirmed cs := by
  obtain ⟨before, c, after, hsplit, hc, -, hdrop⟩ := exists_last_unconfirmed h
  rw [hdrop, hsplit]
  simp only [unconfirmed, List.countP_append, List.countP_cons, hc, Bool.not_false, if_true]
  omega

end Candidate

namespace KeyBook

/-! ## The candidates of a version -/

section Candidates

variable (pending : Std.ExtTreeMap UInt32 (List Candidate)) (v w : UInt32) (cs : List Candidate)

theorem getD_insert : ((pending.insert v cs)[w]?).getD [] =
    if v = w then cs else (pending[w]?).getD [] := by
  by_cases h : v = w
  · subst h
    rw [if_pos rfl, Std.ExtTreeMap.getElem?_insert_self, Option.getD_some]
  · rw [if_neg h, getElem?_insert_of_ne h]

theorem getD_erase : ((pending.erase v)[w]?).getD [] =
    if v = w then [] else (pending[w]?).getD [] := by
  by_cases h : v = w
  · subst h
    rw [if_pos rfl, Std.ExtTreeMap.getElem?_erase_self, Option.getD_none]
  · rw [if_neg h, getElem?_erase_of_ne h]

theorem getD_filter (keep : UInt32 → Bool) : ((pending.filter fun v _ => keep v)[w]?).getD [] =
    if keep w then (pending[w]?).getD [] else [] := by
  rw [Std.ExtTreeMap.getElem?_filter']
  cases pending[w]? <;> cases keep w <;> simp [Option.filter]

end Candidates

variable {hash : Bytes → Digest} {b b' : KeyBook} {f : Fingerprint}

theorem unconfirmed_eq_sum (b : KeyBook) :
    b.unconfirmed = (b.pending.values.map Candidate.unconfirmed).sum := by
  rw [unconfirmed, ← List.countP_eq_length_filter, List.countP_flatten]
  rfl

theorem unconfirmed_replace {v : UInt32}
    (h : ∀ w : UInt32, w ≠ v → b'.pending[w]? = b.pending[w]?) :
    b'.unconfirmed + Candidate.unconfirmed (b.candidates v) =
      b.unconfirmed + Candidate.unconfirmed (b'.candidates v) := by
  have herase : b'.pending.erase v = b.pending.erase v := by
    refine Std.ExtTreeMap.ext_getElem? fun w => ?_
    by_cases hw : v = w
    · rw [hw, Std.ExtTreeMap.getElem?_erase_self, Std.ExtTreeMap.getElem?_erase_self]
    · rw [getElem?_erase_of_ne hw, getElem?_erase_of_ne hw, h w (Ne.symm hw)]
  have hcount (b : KeyBook) : ((b.pending[v]?).map Candidate.unconfirmed).getD 0 =
      Candidate.unconfirmed (b.candidates v) := by
    rw [candidates]
    cases b.pending[v]? <;> rfl
  rw [unconfirmed_eq_sum, unconfirmed_eq_sum, sum_values Candidate.unconfirmed b.pending v,
    sum_values Candidate.unconfirmed b'.pending v, herase, hcount, hcount]
  omega

theorem unconfirmed_insert (b : KeyBook) (v : UInt32) (cs : List Candidate) :
    unconfirmed { b with pending := b.pending.insert v cs } +
        Candidate.unconfirmed (b.candidates v) =
      b.unconfirmed + Candidate.unconfirmed cs := by
  rw [unconfirmed_replace (b := b) (v := v) fun w hw => getElem?_insert_of_ne hw.symm, candidates,
    getD_insert, if_pos rfl]

/-! ## Eviction -/

theorem unconfirmed_eq_zero (h : ∀ v, ∀ c ∈ b.candidates v, c.confirmed = true) :
    b.unconfirmed = 0 := by
  rw [unconfirmed_eq_sum, List.sum_eq_zero_iff_forall_eq_nat]
  intro n hn
  obtain ⟨cs, hcs, rfl⟩ := List.mem_map.1 hn
  obtain ⟨v, hv⟩ := mem_values.1 hcs
  have hcs := h v
  rw [candidates, hv, Option.getD_some] at hcs
  simpa [Candidate.unconfirmed, List.countP_eq_zero] using hcs

/-- `b'` is `b` after the version `v` lost the last of its candidates that nobody confirmed; no
higher version has such candidates. -/
structure Drops (v : UInt32) (b b' : KeyBook) : Prop where
  unconfirmed : (b.candidates v).any (!·.confirmed) = true
  highest : ∀ w, v < w → ∀ c ∈ b.candidates w, c.confirmed = true
  current : b'.current = b.current
  key : b'.key = b.key
  other : ∀ w : UInt32, w ≠ v → b'.pending[w]? = b.pending[w]?
  candidates : b'.candidates v = Candidate.dropLastUnconfirmed (b.candidates v)
  filled : b'.pending[v]? ≠ some []

/-- **What an eviction does**: nothing if all candidates are confirmed, else it drops one. -/
theorem evictOne_cases (b : KeyBook) :
    ((∀ v, ∀ c ∈ b.candidates v, c.confirmed = true) ∧ b.evictOne = b) ∨
      ∃ v, Drops v b b.evictOne := by
  have hfilter (v : UInt32) : (b.pending.filter fun _ cs => cs.any (!·.confirmed))[v]? =
      (b.pending[v]?).filter fun cs : List Candidate => cs.any (!·.confirmed) :=
    Std.ExtTreeMap.getElem?_filter'
  have hmem (v : UInt32) : v ∈ (b.pending.filter fun _ cs => cs.any (!·.confirmed)) ↔
      (b.candidates v).any (!·.confirmed) = true := by
    rw [Std.ExtTreeMap.mem_iff_isSome_getElem?, hfilter, candidates]
    cases b.pending[v]? with
    | none => simp
    | some cs => simp [Option.filter]
  have hconfirmed {v : UInt32} (h : ¬ (b.candidates v).any (!·.confirmed) = true) :
      ∀ c ∈ b.candidates v, c.confirmed = true := by
    simpa using h
  cases hmax : (b.pending.filter fun _ cs => cs.any (!·.confirmed)).maxKey? with
  | none =>
    refine .inl ⟨fun v => hconfirmed fun hany => ?_, by simp only [evictOne, hmax]⟩
    have hv := (hmem v).2 hany
    simp [Std.ExtTreeMap.maxKey?_eq_none_iff.1 hmax] at hv
  | some v =>
    obtain ⟨hv, hhighest⟩ := Std.ExtTreeMap.maxKey?_eq_some_iff_mem_and_forall.1 hmax
    have habove : ∀ w, v < w → ∀ c ∈ b.candidates w, c.confirmed = true := fun w hlt =>
      hconfirmed fun hany => UInt32.lt_irrefl _
        (UInt32.lt_of_lt_of_le hlt (Std.isLE_compare.1 (hhighest w ((hmem w).2 hany))))
    refine .inr ⟨v, ?_⟩
    simp only [evictOne, hmax]
    -- A version whose last candidate is dropped goes altogether.
    cases hdrop : Candidate.dropLastUnconfirmed (b.candidates v) with
    | nil =>
      refine ⟨(hmem v).1 hv, habove, rfl, rfl, fun w hw => getElem?_erase_of_ne hw.symm, ?_, ?_⟩
      · rw [hdrop, candidates, getD_erase, if_pos rfl]
      · simp
    | cons c cs =>
      refine ⟨(hmem v).1 hv, habove, rfl, rfl, fun w hw => getElem?_insert_of_ne hw.symm, ?_, ?_⟩
      · rw [hdrop, candidates, getD_insert, if_pos rfl]
      · simp

theorem candidates_congr {v : UInt32} (h : b'.pending[v]? = b.pending[v]?) :
    b'.candidates v = b.candidates v :=
  congrArg (·.getD []) h

theorem Drops.sublist {v : UInt32} (h : Drops v b b') (w : UInt32) :
    (b'.candidates w).Sublist (b.candidates w) := by
  by_cases hw : w = v
  · rw [hw, h.candidates]
    exact Candidate.dropLastUnconfirmed_sublist _
  · rw [candidates_congr (h.other w hw)]

theorem unconfirmed_evictOne (b : KeyBook) : b.evictOne.unconfirmed = b.unconfirmed - 1 := by
  rcases b.evictOne_cases with ⟨hall, heq⟩ | ⟨v, h⟩
  · rw [heq, unconfirmed_eq_zero hall]
  · have hcount := unconfirmed_replace h.other
    have hdrop := Candidate.unconfirmed_dropLastUnconfirmed h.unconfirmed
    rw [h.candidates] at hcount
    omega

theorem evict_induction {P : KeyBook → Prop} (h : P b) (hstep : ∀ b, P b → P b.evictOne) :
    P b.evict := by
  rw [evict]
  generalize b.unconfirmed - maxUnconfirmed = n
  induction n with
  | zero => exact h
  | succ n ih => exact hstep _ ih

theorem evict_spec (b : KeyBook) :
    b.evict.unconfirmed ≤ maxUnconfirmed ∧ b.evict.current = b.current ∧ b.evict.key = b.key ∧
      ∀ v, (b.evict.candidates v).Sublist (b.candidates v) := by
  constructor
  · have hcount (n : Nat) : (Nat.repeat evictOne n b).unconfirmed = b.unconfirmed - n := by
      induction n with
      | zero => rfl
      | succ n ih => rw [Nat.repeat, unconfirmed_evictOne, ih, Nat.sub_sub]
    rw [evict, hcount]
    omega
  · refine evict_induction (P := fun b' => b'.current = b.current ∧ b'.key = b.key ∧
      ∀ v, (b'.candidates v).Sublist (b.candidates v)) ⟨rfl, rfl, fun v => .refl _⟩ ?_
    rintro b' ⟨hcurrent, hkey, hsub⟩
    rcases b'.evictOne_cases with ⟨-, heq⟩ | ⟨v, h⟩
    · rw [heq]
      exact ⟨hcurrent, hkey, hsub⟩
    · exact ⟨h.current.trans hcurrent, h.key.trans hkey, fun w => (h.sublist w).trans (hsub w)⟩

/-! ## Calls -/

/-- What a book is told. -/
inductive Call where
  /-- The coordinator has confirmed a fingerprint. -/
  | observe (f : Fingerprint)
  /-- Bytes are offered as the key with a fingerprint. -/
  | offer (f : Fingerprint) (key : Bytes)

namespace Call

/-- The fingerprint that a call is about. -/
def fingerprint : Call → Fingerprint
  | observe f => f
  | offer f _ => f

/-- What the call brings to a candidate. -/
def change : Call → Candidate → Candidate
  | observe _, c => { c with confirmed := true }
  | offer _ key, c => { c with key := some key }

/-- The candidate that the call adds if there is none for its key. -/
def fresh : Call → Candidate
  | observe f => ⟨f, none, true⟩
  | offer f key => ⟨f, some key, false⟩

/-- Bytes that are offered are those of the fingerprint. -/
def IsGenuine (hash : Bytes → Digest) : Call → Prop
  | observe _ => True
  | offer f key => f.Matches hash key

theorem fingerprint_change (call : Call) (c : Candidate) :
    (call.change c).fingerprint = c.fingerprint := by
  cases call <;> rfl

theorem fingerprint_fresh (call : Call) : call.fresh.fingerprint = call.fingerprint := by
  cases call <;> rfl

theorem hasDigest_fresh (call : Call) : call.fresh.HasDigest call.fingerprint.digest :=
  congrArg Fingerprint.digest call.fingerprint_fresh

end Call

/-- The answer to a call, and the book after it. -/
def call (hash : Bytes → Digest) (b : KeyBook) : Call → Bool × KeyBook
  | .observe f => b.observe f
  | .offer f key => b.offer hash f key

/-- The book after calls. -/
def run (hash : Bytes → Digest) (b : KeyBook) (calls : List Call) : KeyBook :=
  calls.foldl (fun b c => (b.call hash c).2) b

/-- The candidates of the call's version, with what it brings. -/
def noted (b : KeyBook) (c : Call) : List Candidate :=
  Candidate.upsert c.fingerprint.digest c.change c.fresh (b.candidates c.fingerprint.version)

/-- The book with a call noted, and nothing adopted yet. -/
def note (b : KeyBook) (c : Call) : KeyBook :=
  match c with
  | .observe f =>
    { b with pending := (b.pending.filter fun v _ => f.version ≤ v).insert f.version (b.noted c) }
  | .offer f _ => evict { b with pending := b.pending.insert f.version (b.noted c) }

variable {c : Call}

theorem observe_of_isNewer (h : f.IsNewer b.current) :
    b.observe f = (b.note (.observe f)).adopt f := by
  have hself := getD_filter b.pending f.version (fun v => decide (f.version ≤ v))
  rw [decide_eq_true UInt32.le_rfl, if_pos rfl] at hself
  rw [observe, if_neg (not_not_intro h)]
  simp only [hself]
  rfl

theorem offer_of_isNewer {key : Bytes} (h : f.IsNewer b.current) (hkey : f.Matches hash key)
    (hnone : ((b.find? f).any (·.key.isSome)) = false) :
    b.offer hash f key = (b.note (.offer f key)).adopt f := by
  rw [offer, if_neg (not_not_intro ⟨h, hkey⟩), hnone, if_neg Bool.false_ne_true]
  rfl

/-- **A call is passed over, or it is noted and then an adoption is tried.** -/
theorem call_cases (hash : Bytes → Digest) (b : KeyBook) (c : Call) :
    b.call hash c = (false, b) ∨
      (c.fingerprint.IsNewer b.current ∧ c.IsGenuine hash ∧
        b.call hash c = (b.note c).adopt c.fingerprint) := by
  cases c with
  | observe f =>
    by_cases h : f.IsNewer b.current
    · exact .inr ⟨h, trivial, observe_of_isNewer h⟩
    · exact .inl (if_pos h)
  | offer f key =>
    by_cases h : f.IsNewer b.current ∧ f.Matches hash key
    · cases hheld : (b.find? f).any (·.key.isSome) with
      | true =>
        refine .inl ?_
        rw [call, offer, if_neg (not_not_intro h), hheld, if_pos rfl]
      | false => exact .inr ⟨h.1, h.2, offer_of_isNewer h.1 h.2 hheld⟩
    · exact .inl (if_pos h)

/-! ## Noting a call -/

theorem note_spec (b : KeyBook) (c : Call) :
    (b.note c).current = b.current ∧ (b.note c).key = b.key ∧ ∀ v, ((b.note c).candidates v).Sublist
      (if c.fingerprint.version = v then b.noted c else b.candidates v) := by
  cases c with
  | observe f =>
    refine ⟨rfl, rfl, fun v => ?_⟩
    change (((b.pending.filter fun v _ => decide (f.version ≤ v)).insert f.version
      (b.noted (.observe f)))[v]?.getD []).Sublist (if f.version = v then _ else _)
    rw [getD_insert]
    split
    · exact List.Sublist.refl _
    · rw [getD_filter b.pending v fun v => decide (f.version ≤ v)]
      split
      · exact List.Sublist.refl _
      · exact List.nil_sublist _
  | offer f key =>
    obtain ⟨-, hcurrent, hkey, hsub⟩ := evict_spec
      { b with pending := b.pending.insert f.version (b.noted (.offer f key)) }
    refine ⟨hcurrent, hkey, fun v => ?_⟩
    have hsub := hsub v
    rwa [candidates, candidates, getD_insert] at hsub

theorem mem_note {v : UInt32} {x : Candidate} (h : x ∈ (b.note c).candidates v) :
    x ∈ b.candidates v ∨ c.fingerprint.version = v ∧
      (x = c.fresh ∨
        ∃ x₀ ∈ b.candidates v, x₀.HasDigest c.fingerprint.digest ∧ x = c.change x₀) := by
  have h := ((note_spec b c).2.2 v).subset h
  split at h
  · next heq =>
    rcases Candidate.mem_upsert h with hx | hx | ⟨x₀, hx₀, hdigest, hx⟩
    · exact .inr ⟨heq, .inl hx⟩
    · exact .inl (heq ▸ hx)
    · exact .inr ⟨heq, .inr ⟨x₀, heq ▸ hx₀, hdigest, hx⟩⟩
  · exact .inl h

theorem unconfirmed_note_le (h : b.unconfirmed ≤ maxUnconfirmed) (c : Call) :
    (b.note c).unconfirmed ≤ maxUnconfirmed := by
  cases c with
  | observe f =>
    have hcount := unconfirmed_insert
      { b with pending := b.pending.filter fun v _ => f.version ≤ v }
      f.version (b.noted (.observe f))
    have hfilter := sum_values_filter_le Candidate.unconfirmed b.pending fun v _ => f.version ≤ v
    have hnoted : Candidate.unconfirmed (b.noted (.observe f)) ≤
        Candidate.unconfirmed (b.candidates f.version) + 0 :=
      Candidate.unconfirmed_upsert_le fun _ _ => rfl
    rw [unconfirmed_eq_sum, unconfirmed_eq_sum, candidates,
      getD_filter b.pending f.version fun v => decide (f.version ≤ v), decide_eq_true UInt32.le_rfl,
      if_pos rfl] at hcount
    rw [unconfirmed_eq_sum] at h ⊢
    rw [candidates] at hnoted
    simp only [note] at hcount ⊢
    omega
  | offer f key => exact (evict_spec _).1

/-! ## Adoption -/

/-- `b'` is the book `b` after it took the candidate `c`, of the key of `f`, and gave up all older
ones; `rest` are the others of its version. -/
structure Adopts (f : Fingerprint) (b b' : KeyBook) (c : Candidate) (rest : List Candidate) :
    Prop where
  perm : (b.candidates f.version).Perm (c :: rest)
  digest : c.HasDigest f.digest
  complete : c.IsComplete
  current : b'.current = c.fingerprint
  key : b'.key = c.key
  candidates : ∀ v, (b'.candidates v).Sublist
    (if v < f.version then [] else if f.version = v then rest else b.candidates v)
  unconfirmed : b'.unconfirmed ≤ b.unconfirmed

/-- No version from the next one on is older, even where there is no next. -/
theorem not_lt_of_ofNat_min_le {v w : UInt32}
    (h : UInt32.ofNat (min (v.toNat + 1) (UInt32.size - 1)) ≤ w) : ¬ w < v := by
  have hsize : UInt32.size = 4294967296 := rfl
  have hv := v.toNat_lt
  rw [UInt32.le_iff_toNat_le, UInt32.toNat_ofNat_of_lt' (by omega)] at h
  rw [UInt32.lt_iff_toNat_lt]
  omega

theorem unconfirmed_replace_le (b : KeyBook) (f : Fingerprint) (key : Option Bytes) (v : UInt32)
    (cs : List Candidate) (keep : UInt32 → Bool) :
    unconfirmed ⟨f, key, (b.pending.insert v cs).filter fun w _ => keep w⟩ +
      Candidate.unconfirmed (b.candidates v) ≤ b.unconfirmed + Candidate.unconfirmed cs := by
  rw [← b.unconfirmed_insert v cs, unconfirmed_eq_sum, unconfirmed_eq_sum]
  exact Nat.add_le_add_right (sum_values_filter_le Candidate.unconfirmed (b.pending.insert v cs)
    fun w _ => keep w) _

/-- **An adoption takes a candidate with both halves**, and without one it changes nothing. -/
theorem adopt_cases (b : KeyBook) (f : Fingerprint) :
    (b.adopt f = (false, b) ∧
      ∀ c ∈ b.candidates f.version, c.HasDigest f.digest → ¬ c.IsComplete) ∨
    ∃ b' c rest, b.adopt f = (true, b') ∧ Adopts f b b' c rest := by
  cases hi : (b.candidates f.version).findIdx?
    (fun c => c.HasDigest f.digest && c.confirmed && c.key.isSome) with
  | none =>
    refine .inl ⟨by simp only [adopt, hi], fun c hc hdigest hcomplete => ?_⟩
    have hfalse := List.findIdx?_eq_none_iff.1 hi c hc
    simp [hdigest, hcomplete.1, hcomplete.2] at hfalse
  | some i =>
    obtain ⟨hlt, hp, -⟩ := List.findIdx?_eq_some_iff_getElem.1 hi
    simp only [Bool.and_eq_true, decide_eq_true_eq] at hp
    obtain ⟨c, hc⟩ : ∃ c, (b.candidates f.version)[i] = c := ⟨_, rfl⟩
    obtain ⟨rest, hrest⟩ : ∃ rest, Candidate.swapRemove i (b.candidates f.version) = rest :=
      ⟨_, rfl⟩
    obtain ⟨next, hnext⟩ : ∃ next,
        UInt32.ofNat (min (f.version.toNat + 1) (UInt32.size - 1)) = next := ⟨_, rfl⟩
    have hkeeps : ∀ v, next ≤ v → ¬ v < f.version := fun v hv => not_lt_of_ofNat_min_le (hnext ▸ hv)
    -- The candidate is swapped with the last one before it is taken out. The order is lost, and
    -- nothing else.
    have hperm : (b.candidates f.version).Perm (c :: rest) := hc ▸ hrest ▸
      (List.getElem_cons_eraseIdx_perm hlt).symm.trans ((Candidate.swapRemove_perm hlt).symm.cons _)
    rw [hc] at hp
    refine .inr ⟨⟨c.fingerprint, c.key,
      (b.pending.insert f.version rest).filter fun v _ => next ≤ v⟩, c, rest, ?_,
      ⟨hperm, hp.1.1, ⟨hp.1.2, hp.2⟩, rfl, rfl, fun v => ?_, ?_⟩⟩
    · simp only [adopt, hi, List.getElem?_eq_getElem hlt, hc, hrest, hnext]
    · have hfilter := getD_filter (b.pending.insert f.version rest) v fun v => decide (next ≤ v)
      rw [candidates, hfilter, getD_insert]
      split
      · next hle =>
        rw [if_neg (hkeeps v (of_decide_eq_true hle))]
        exact List.Sublist.refl _
      · exact List.nil_sublist _
    · have hcount := b.unconfirmed_replace_le c.fingerprint c.key f.version rest fun v => next ≤ v
      have hsplit : Candidate.unconfirmed (b.candidates f.version) =
          Candidate.unconfirmed (c :: rest) := hperm.countP_eq _
      have hle : Candidate.unconfirmed rest ≤ Candidate.unconfirmed (c :: rest) :=
        (List.sublist_cons_self c rest).countP_le
      omega

/-! ## What holds after any calls -/

/-- Every candidate stands under its version, none is older than the adopted key, and no two are
of one key. -/
structure Filed (b : KeyBook) : Prop where
  version : ∀ v, ∀ c ∈ b.candidates v, c.fingerprint.version = v
  newer : ∀ v, ∀ c ∈ b.candidates v, b.current.version ≤ v
  distinct : ∀ v, (Candidate.digests (b.candidates v)).Nodup

/-- Moreover no candidate waits with both halves, and few wait to be confirmed. -/
structure Orderly (b : KeyBook) : Prop extends Filed b where
  incomplete : ∀ v, ∀ c ∈ b.candidates v, ¬ c.IsComplete
  few : b.unconfirmed ≤ maxUnconfirmed

theorem Filed.note (h : b.Filed) (hc : c.fingerprint.IsNewer b.current) : (b.note c).Filed where
  version v x hx := by
    rcases mem_note hx with hx | ⟨rfl, rfl | ⟨x₀, hx₀, -, rfl⟩⟩
    · exact h.version v x hx
    · rw [c.fingerprint_fresh]
    · rw [c.fingerprint_change]
      exact h.version _ x₀ hx₀
  newer v x hx := by
    rw [(note_spec b c).1]
    rcases mem_note hx with hx | ⟨rfl, -⟩
    · exact h.newer v x hx
    · exact UInt32.le_of_lt hc
  distinct v := by
    refine (((note_spec b c).2.2 v).map _).nodup ?_
    split
    · exact Candidate.nodup_digests_upsert c.fingerprint_change c.hasDigest_fresh
        (h.distinct c.fingerprint.version)
    · exact h.distinct v

section Adopts

variable {a x : Candidate} {rest : List Candidate} {v : UInt32}

theorem Adopts.mem (ha : Adopts f b b' a rest) : a ∈ b.candidates f.version :=
  ha.perm.mem_iff.2 List.mem_cons_self

theorem Adopts.version (ha : Adopts f b b' a rest) (h : b.Filed) :
    b'.current.version = f.version := by
  rw [ha.current]
  exact h.version _ a ha.mem

theorem Adopts.distinct (ha : Adopts f b b' a rest) (h : b.Filed) :
    f.digest ∉ Candidate.digests rest ∧ (Candidate.digests rest).Nodup := by
  have hnodup : (Candidate.digests (a :: rest)).Nodup :=
    (ha.perm.map _).nodup_iff.1 (h.distinct f.version)
  rw [← ha.digest]
  exact List.nodup_cons.1 hnodup

theorem Adopts.mem_of_mem (ha : Adopts f b b' a rest) (hx : x ∈ b'.candidates v) :
    x ∈ b.candidates v := by
  have hx := (ha.candidates v).subset hx
  split at hx
  · cases hx
  · split at hx
    · next heq => exact heq ▸ ha.perm.mem_iff.2 (List.mem_cons_of_mem _ hx)
    · exact hx

/-- **A candidate after a call** was there before, or the call put it there. -/
theorem mem_of_mem_call {hash : Bytes → Digest} {c : Call}
    (hx : x ∈ (b.call hash c).2.candidates v) :
    x ∈ b.candidates v ∨ x ∈ (b.note c).candidates v := by
  rcases call_cases hash b c with heq | ⟨-, -, heq⟩ <;> rw [heq] at hx
  · exact .inl hx
  · rcases adopt_cases (b.note c) c.fingerprint with ⟨heq, -⟩ | ⟨b', a, rest, heq, ha⟩ <;>
      rw [heq] at hx
    · exact .inr hx
    · exact .inr (ha.mem_of_mem hx)

theorem Adopts.cases (ha : Adopts f b b' a rest) (h : b.Filed) (hx : x ∈ b'.candidates v) :
    f.version ≤ v ∧ ¬ (f.version = v ∧ x.HasDigest f.digest) := by
  have hx := (ha.candidates v).subset hx
  split at hx
  · cases hx
  next hle =>
  refine ⟨UInt32.not_lt.1 hle, fun hsame => ?_⟩
  rw [if_pos hsame.1] at hx
  exact (ha.distinct h).1 (List.mem_map.2 ⟨x, hx, hsame.2⟩)

theorem Filed.adopt (h : b.Filed) (ha : Adopts f b b' a rest) : b'.Filed where
  version v x hx := h.version v x (ha.mem_of_mem hx)
  newer v x hx := by
    rw [ha.version h]
    exact (ha.cases h hx).1
  distinct v := by
    refine ((ha.candidates v).map _).nodup ?_
    split
    · exact List.nodup_nil
    split
    · exact (ha.distinct h).2
    · exact h.distinct v

end Adopts

theorem Orderly.complete_note (h : b.Orderly) {v : UInt32} {x : Candidate}
    (hx : x ∈ (b.note c).candidates v) (hcomplete : x.IsComplete) :
    c.fingerprint.version = v ∧ x.HasDigest c.fingerprint.digest := by
  rcases mem_note hx with hx | ⟨heq, rfl | ⟨x₀, hx₀, hdigest, rfl⟩⟩
  · exact absurd hcomplete (h.incomplete v x hx)
  · exact ⟨heq, c.hasDigest_fresh⟩
  · exact ⟨heq, by rwa [Candidate.HasDigest, c.fingerprint_change]⟩

theorem Orderly.call (h : b.Orderly) (hash : Bytes → Digest) (c : Call) :
    (b.call hash c).2.Orderly := by
  rcases call_cases hash b c with heq | ⟨hnewer, -, heq⟩
  · rw [heq]
    exact h
  have hfiled := h.toFiled.note hnewer
  have hfew := unconfirmed_note_le h.few c
  rw [heq]
  rcases adopt_cases (b.note c) c.fingerprint with ⟨heq, hnone⟩ | ⟨b', a, rest, heq, ha⟩ <;>
    rw [heq]
  · refine ⟨hfiled, fun v x hx hcomplete => ?_, hfew⟩
    obtain ⟨rfl, hdigest⟩ := h.complete_note hx hcomplete
    exact hnone x hx hdigest hcomplete
  · refine ⟨hfiled.adopt ha, fun v x hx hcomplete => ?_, ha.unconfirmed.trans hfew⟩
    exact (ha.cases hfiled hx).2 (h.complete_note (ha.mem_of_mem hx) hcomplete)

/-- Some call confirmed the key of `f`. -/
def Observed (calls : List Call) (f : Fingerprint) : Prop :=
  ∃ g, .observe g ∈ calls ∧ f.Agrees g

/-- Some call offered the bytes of the key of `f`. -/
def Offered (hash : Bytes → Digest) (calls : List Call) (f : Fingerprint) (key : Bytes) : Prop :=
  f.Matches hash key ∧ ∃ g, .offer g key ∈ calls ∧ f.Agrees g

/-- The candidates of the versions that satisfy `P` have what they have from these calls. -/
structure Accounted (hash : Bytes → Digest) (P : UInt32 → Prop) (calls : List Call) (b : KeyBook) :
    Prop where
  observed : ∀ v, P v → ∀ x ∈ b.candidates v, x.confirmed = true → Observed calls x.fingerprint
  offered : ∀ v, P v → ∀ x ∈ b.candidates v, ∀ key, x.key = some key →
    Offered hash calls x.fingerprint key

section Accounted

variable {P : UInt32 → Prop} {calls calls' : List Call}

theorem Observed.mono (h : Observed calls f) (hsub : calls ⊆ calls') : Observed calls' f := by
  obtain ⟨g, hg, hagrees⟩ := h
  exact ⟨g, hsub hg, hagrees⟩

theorem Offered.mono {key : Bytes} (h : Offered hash calls f key) (hsub : calls ⊆ calls') :
    Offered hash calls' f key := by
  obtain ⟨hkey, g, hg, hagrees⟩ := h
  exact ⟨hkey, g, hsub hg, hagrees⟩

theorem Accounted.mono (h : Accounted hash P calls b) (hsub : calls ⊆ calls') :
    Accounted hash P calls' b :=
  ⟨fun v hv x hx hconfirmed => (h.observed v hv x hx hconfirmed).mono hsub,
    fun v hv x hx key hkey => (h.offered v hv x hx key hkey).mono hsub⟩

theorem Accounted.note (h : Accounted hash P calls b) (hfiled : b.Filed) (hc : c.IsGenuine hash) :
    Accounted hash P (calls ++ [c]) (b.note c) := by
  have hold := h.mono (List.subset_append_left calls [c])
  have hmem : c ∈ calls ++ [c] := List.mem_append_right _ (List.mem_singleton_self c)
  -- What confirms a candidate and what gives it bytes was there before, came with the candidate,
  -- or was added to it.
  refine ⟨fun v hv x hx hconfirmed => ?_, fun v hv x hx key hkey => ?_⟩ <;>
    rcases mem_note hx with hx | ⟨rfl, rfl | ⟨x₀, hx₀, hdigest, rfl⟩⟩
  · exact hold.observed v hv x hx hconfirmed
  · cases c with
    | observe f => exact ⟨f, hmem, .refl f⟩
    | offer f key => cases hconfirmed
  · cases c with
    | observe f => exact ⟨f, hmem, hfiled.version _ x₀ hx₀, hdigest⟩
    | offer f key => exact hold.observed _ hv x₀ hx₀ hconfirmed
  · exact hold.offered v hv x hx key hkey
  · cases c with
    | observe f => cases hkey
    | offer f key' =>
      cases hkey
      exact ⟨hc, f, hmem, .refl f⟩
  · cases c with
    | observe f => exact hold.offered _ hv x₀ hx₀ key hkey
    | offer f key' =>
      cases hkey
      have hversion : x₀.fingerprint.version = f.version := hfiled.version _ x₀ hx₀
      refine ⟨⟨?_, hc.2.trans (Eq.symm hdigest)⟩, f, hmem, hversion, hdigest⟩
      exact hversion ▸ hc.1

/-- **What one call does**: the candidates are accounted for by it and the calls before, and if it
answers true then so is the key that the book has from now on, which is newer. -/
theorem Accounted.call (h : Accounted hash P calls b) (ho : b.Orderly) (c : Call) :
    Accounted hash P (calls ++ [c]) (b.call hash c).2 ∧
      ((b.call hash c).1 = false ∧ (b.call hash c).2.current = b.current ∧
          (b.call hash c).2.key = b.key ∨
        (b.call hash c).1 = true ∧ b.current.version < (b.call hash c).2.current.version ∧
          (P (b.call hash c).2.current.version →
            Observed (calls ++ [c]) (b.call hash c).2.current ∧ ∃ key,
              (b.call hash c).2.key = some key ∧
                Offered hash (calls ++ [c]) (b.call hash c).2.current key)) := by
  rcases call_cases hash b c with heq | ⟨hnewer, hgenuine, heq⟩ <;> rw [heq]
  · exact ⟨h.mono (List.subset_append_left calls [c]), .inl ⟨rfl, rfl, rfl⟩⟩
  have hfiled := ho.toFiled.note hnewer
  have hnoted := h.note ho.toFiled hgenuine
  obtain ⟨hcurrent, hkey, -⟩ := note_spec b c
  rcases adopt_cases (b.note c) c.fingerprint with ⟨heq, -⟩ | ⟨b', a, rest, heq, ha⟩ <;> rw [heq]
  · exact ⟨hnoted, .inl ⟨rfl, hcurrent, hkey⟩⟩
  · have hversion := ha.version hfiled
    refine ⟨⟨fun v hv x hx => hnoted.observed v hv x (ha.mem_of_mem hx),
      fun v hv x hx => hnoted.offered v hv x (ha.mem_of_mem hx)⟩,
      .inr ⟨rfl, hversion ▸ hnewer, fun hP => ?_⟩⟩
    rw [hversion] at hP
    obtain ⟨key, hkey⟩ := Option.isSome_iff_exists.1 ha.complete.2
    rw [ha.current, ha.key]
    exact ⟨hnoted.observed _ hP a ha.mem ha.complete.1, key, hkey,
      hnoted.offered _ hP a ha.mem key hkey⟩

end Accounted

/-! ## Runs of calls -/

theorem run_append (hash : Bytes → Digest) (b : KeyBook) (calls later : List Call) :
    run hash b (calls ++ later) = run hash (run hash b calls) later :=
  List.foldl_append ..

theorem run_snoc (hash : Bytes → Digest) (b : KeyBook) (calls : List Call) (c : Call) :
    run hash b (calls ++ [c]) = ((run hash b calls).call hash c).2 :=
  run_append hash b calls [c]

theorem orderly_empty : empty.Orderly where
  version v c hc := by simp [empty, candidates] at hc
  newer v c hc := by simp [empty, candidates] at hc
  distinct v := by simp [empty, candidates, Candidate.digests]
  incomplete v c hc := by simp [empty, candidates] at hc
  few := by
    rw [unconfirmed_eq_sum]
    exact Nat.zero_le _

theorem Orderly.run (h : b.Orderly) (hash : Bytes → Digest) (calls : List Call) :
    (run hash b calls).Orderly := by
  induction calls using List.reverseRecOn with
  | nil => exact h
  | append_singleton calls c ih => exact run_snoc hash b calls c ▸ ih.call hash c

theorem Accounted.run {P : UInt32 → Prop} (h : Accounted hash P [] b) (ho : b.Orderly)
    (calls : List Call) : Accounted hash P calls (run hash b calls) := by
  induction calls using List.reverseRecOn with
  | nil => exact h
  | append_singleton calls c ih =>
    exact run_snoc hash b calls c ▸ (ih.call (ho.run hash calls) c).1

/-- The key that a book has was observed and offered, and the candidates are in order. -/
structure Upholds (hash : Bytes → Digest) (calls : List Call) (b : KeyBook) : Prop extends
    Orderly b where
  adopted : 0 < b.current.version →
    Observed calls b.current ∧ ∃ key, b.key = some key ∧ Offered hash calls b.current key
  keys : ∀ v, ∀ c ∈ b.candidates v, ∀ key, c.key = some key → c.fingerprint.Matches hash key

theorem upholds_run (hash : Bytes → Digest) (calls : List Call) :
    (run hash empty calls).Upholds hash calls := by
  have hempty : Accounted hash (fun _ => True) [] empty :=
    ⟨fun v _ c hc => by simp [empty, candidates] at hc,
      fun v _ c hc => by simp [empty, candidates] at hc⟩
  have horderly := fun calls => orderly_empty.run hash calls
  refine ⟨horderly calls, ?_, fun v c hc key hkey =>
    ((hempty.run orderly_empty calls).offered v trivial c hc key hkey).1⟩
  induction calls using List.reverseRecOn with
  | nil => exact fun hpos => absurd hpos (UInt32.lt_irrefl 0)
  | append_singleton calls c ih =>
    have hold := hempty.run orderly_empty calls
    rw [run_snoc]
    rcases (hold.call (horderly calls) c).2 with ⟨-, hcurrent, hkey⟩ | ⟨-, -, hadopted⟩
    · rw [hcurrent, hkey]
      intro hpos
      obtain ⟨hobserved, key, hkey, hoffered⟩ := ih hpos
      exact ⟨hobserved.mono (List.subset_append_left _ _), key, hkey,
        hoffered.mono (List.subset_append_left _ _)⟩
    · exact fun _ => hadopted trivial

/-- **The book after any calls is in order**, its key was both observed and offered, and a call
raises its version exactly if it answers true. -/
theorem book_of_calls (hash : Bytes → Digest) (calls : List Call) (next : Call) :
    (run hash empty calls).Upholds hash calls ∧
      (run hash empty calls).current.version ≤ (run hash empty (calls ++ [next])).current.version ∧
      (((run hash empty calls).call hash next).1 = true ↔
        (run hash empty calls).current.version <
          (run hash empty (calls ++ [next])).current.version) := by
  have hupholds := upholds_run hash calls
  have hnone : Accounted hash (fun _ => False) calls (run hash empty calls) :=
    ⟨fun v hv => hv.elim, fun v hv => hv.elim⟩
  refine ⟨hupholds, ?_⟩
  rw [run_snoc]
  rcases (hnone.call hupholds.toOrderly next).2 with ⟨hanswer, hcurrent, -⟩ | ⟨hanswer, hlt, -⟩
  · rw [hanswer, hcurrent]
    exact ⟨UInt32.le_rfl, by simp⟩
  · exact ⟨UInt32.le_of_lt hlt, iff_of_true hanswer hlt⟩

end KeyBook

end GroupKey
