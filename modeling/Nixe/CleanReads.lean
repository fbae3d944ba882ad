/-
**The cached answer of a clean range.**

`resident_access_ready` for a read walks over the pages of a range and, if all of them were clean
and the visibility summary did not move meanwhile, remembers the epoch of the summary.  As long as
the summary stands at the remembered epoch the next call answers without a walk.

Every transition of a page notifies the summaries the page is subscribed to before it changes the
visibility, so a summary that still stands at the epoch of the walk means that no page of the walk
has changed since it was sampled.  This needs that no page is sampled as clean in the middle of a
transition, after the notification; the argument is carried out for such runs (`Disciplined`).

Main definitions:

* `Watching` — all pages of a range are subscribed to a summary, which has reached an epoch;
* `SeenClean` — at that epoch of the summary the page is clean.

Main results:

* `seenClean_cons`, `cleanSeen_kept` — no thread ends it;
* `cached_seen` — what the remembered epoch of a range stands for;
* `currentLocked_sat` — the record of a layout answers for all pages of the range;
* `Safe.residentAccessReady` — **a cached answer is true at a moment of the call**.
-/
import Nixe.Readback

set_option autoImplicit false

namespace Nixe.Memory

open Interleaving List Option

variable {T : Topology} {env : ℕ → Answer} {i p r n epoch : ℕ} {ps : List ℕ}
  {e : Event Shared Resp} {h : Hist}

/-! ### Transitions under way -/

theorem pending_cons (hpending : Pending p n (e :: h)) : e.op = .bump p n ∨ Pending p n h := by
  obtain ⟨j, op, answer, post⟩ := e
  cases op with
  | bump =>
    rcases hpending with ⟨rfl, rfl⟩ | hpending
    · exact .inl rfl
    · exact .inr hpending
  | unlockPage => exact .inr hpending.2
  | page q change =>
    cases change with
    | setVisibility => exact .inr hpending.2
    | _ => exact .inr hpending
  | _ => exact .inr hpending

theorem not_pending_unlock {j : ℕ} {answer : Unit} {post : Shared} :
    ¬ Pending p n (⟨j, .unlockPage p, answer, post⟩ :: h) := fun hpending => hpending.1 rfl

theorem exec_bump {s s' : Shared} (h : exec i (.bump p n) s = some ((), s')) :
    (s.pages p).lock = some i := by
  by_contra hfree
  simp only [exec, if_neg hfree] at h
  cases h

theorem executes_bump (hexec : (system T env).Executes e h) (hop : e.op = .bump p n) :
    (((system T env).state h).pages p).lock = some e.thread := by
  obtain ⟨j, op, answer, post⟩ := e
  subst hop
  exact exec_bump hexec

/-- A transition is under way only while the page is locked. -/
theorem pending_locked (hlegal : (system T env).Legal (Good T env) h)
    (hpending : Pending p n h) : (((system T env).state h).pages p).lock ≠ none := by
  induction hlegal with
  | nil => exact hpending.elim
  | @cons e h hrest hexec hgood ih =>
    have hbefore : (((system T env).state h).pages p).lock ≠ none := by
      rcases pending_cons hpending with hop | hpending
      · rw [executes_bump hexec hop]
        simp
      · exact ih hpending
    rw [System.state_cons]
    rcases (effect_of_executes hexec).page_cases p with hsame | ⟨-, -, hpage⟩ | ⟨hop, -, -⟩ |
      ⟨change, -, hheld, hpage⟩
    · rw [hsame]
      exact hbefore
    · rw [hpage]
      simp
    · obtain ⟨j, op, answer, post⟩ := e
      subst hop
      exact absurd hpending not_pending_unlock
    · rw [hpage, PageAct.run_lock]
      exact hbefore

/-- The thread holds the mutex of the page and has begun no transition. -/
def Quiet (T : Topology) (env : ℕ → Answer) (i p : ℕ) (h : Hist) : Prop :=
  (((system T env).state h).pages p).lock = some i ∧ ∀ n, ¬ Pending p n h

theorem quiet_stable {i p : ℕ} : (system T env).Stable (Good T env) i (Quiet T env i p) := by
  rintro e h - hexec - hne ⟨hlock, hquiet⟩
  refine ⟨?_, fun n hpending => ?_⟩
  · rw [System.state_cons, (effect_of_executes hexec).page_of_locked hlock hne]
    exact hlock
  · rcases pending_cons hpending with hop | hpending
    · have hheld := executes_bump hexec hop
      rw [hlock] at hheld
      exact hne (some.inj hheld).symm
    · exact hquiet n hpending

/-! ### Subscriptions -/

/-- The summary exists and all the pages are subscribed to it. -/
structure Subscribed (T : Topology) (env : ℕ → Answer) (n : ℕ) (ps : List ℕ) (h : Hist) :
    Prop where
  known : n < ((system T env).state h).counters.length
  member : ∀ p ∈ ps, n ∈ (((system T env).state h).pages p).summaries

theorem subscribed_kept : (system T env).Kept (Good T env) (Subscribed T env n ps) := by
  intro e h _ hexec _ hsubscribed
  have heffect := effect_of_executes hexec
  exact ⟨lt_of_lt_of_le hsubscribed.known heffect.counters_mono,
    fun p hp => heffect.summaries_subset (hsubscribed.member p hp)⟩

section

variable (hlegal : (system T env).Legal (Good T env) h)
include hlegal

/-- **The summary of a layout** has all pages of the range as subscribers. -/
theorem layout_subscribed (hsummary : (((system T env).state h).layouts r).summary = some n) :
    Subscribed T env n (T.pages r) h := by
  induction hlegal with
  | nil => cases hsummary
  | @cons e h hrest hexec hgood ih =>
    refine subscribed_kept e h hrest hexec hgood ?_
    rcases (effect_of_executes hexec).layout_summary hsummary with hbefore | hop
    · exact ih hbefore
    · obtain ⟨j, op, answer, post⟩ := e
      subst hop
      exact ⟨hgood.1, hgood.2⟩

/-- The summaries of the interner have the pages they cover as subscribers. -/
theorem interner_subscribed
    {entry : List ℕ × ℕ} (hentry : entry ∈ ((system T env).state h).interner) :
    Subscribed T env entry.2 entry.1 h := by
  induction hlegal with
  | nil => cases hentry
  | @cons e h hrest hexec hgood ih =>
    refine subscribed_kept e h hrest hexec hgood ?_
    rcases (effect_of_executes hexec).interner_cases hentry with hbefore | hop
    · exact ih hbefore
    · obtain ⟨j, op, answer, post⟩ := e
      subst hop
      exact ⟨hgood.1, hgood.2⟩

/-- The once-cell of a layout that is being initialised is empty. -/
theorem initialising_open : (((system T env).state h).layouts r).initialising ≠ none →
      (((system T env).state h).layouts r).summary = none := by
  induction hlegal with
  | nil => exact fun _ => rfl
  | cons _ hexec _ ih => exact ((effect_of_executes hexec).once ih).1

end

/-- The layout has this summary. -/
def HasSummary (T : Topology) (env : ℕ → Answer) (r n : ℕ) (h : Hist) : Prop :=
  (((system T env).state h).layouts r).summary = some n

theorem hasSummary_kept : (system T env).Kept (Good T env) (HasSummary T env r n) :=
  fun _ _ hlegal hexec _ hsummary =>
    ((effect_of_executes hexec).once (initialising_open hlegal)).2 n hsummary

theorem count_le_max (hlegal : (system T env).Legal (Good T env) h) :
    count ((system T env).state h) n ≤ u64Max := by
  induction hlegal with
  | nil => exact Nat.zero_le _
  | cons _ hexec _ ih => exact (effect_of_executes hexec).count_le ih

/-! ### A clean page at an epoch of its summary -/

/-- All the pages are subscribed to the summary, which has reached the epoch. -/
structure Watching (T : Topology) (env : ℕ → Answer) (n epoch : ℕ) (ps : List ℕ)
    (h : Hist) : Prop extends Subscribed T env n ps h where
  le_count : epoch ≤ count ((system T env).state h) n

theorem watching_kept : (system T env).Kept (Good T env) (Watching T env n epoch ps) :=
  fun e h hlegal hexec hgood hwatching =>
    ⟨subscribed_kept e h hlegal hexec hgood hwatching.toSubscribed,
      le_trans hwatching.le_count ((effect_of_executes hexec).count_mono)⟩

/-- While the summary stands at the epoch the page is clean and stays so. -/
def SeenClean (T : Topology) (env : ℕ → Answer) (n epoch p : ℕ) (h : Hist) : Prop :=
  epoch < u64Max → Disciplined h → count ((system T env).state h) n = epoch →
    (((system T env).state h).pages p).visibility = .clean ∧ ¬ Pending p n h

/-- **A clean page stays clean until its summary moves.** -/
theorem seenClean_cons (hexec : (system T env).Executes e h)
    (hgood : Good T env e h) (hwatching : Watching T env n epoch ps h) (hp : p ∈ ps)
    (hseen : SeenClean T env n epoch p h) : SeenClean T env n epoch p (e :: h) := by
  intro hlt hdisciplined hcount
  have heffect := effect_of_executes hexec
  have hbefore : count ((system T env).state h) n = epoch :=
    le_antisymm (hcount ▸ heffect.count_mono) hwatching.le_count
  obtain ⟨hclean, hquiet⟩ := hseen hlt hdisciplined.2 hbefore
  refine ⟨?_, fun hpending => ?_⟩
  · rcases transition_or_same hexec with ⟨visibility, epoch', hop, hpost, -⟩ | ⟨hpost, -⟩
    · -- a transition away from clean would be pending at the summary
      by_contra hne
      rw [System.state_cons, hpost] at hne
      exact hquiet ((hgood.transition hop).notified hclean hne n (hwatching.member p hp))
    · rw [System.state_cons, hpost]
      exact hclean
  · rcases pending_cons hpending with hop | hpending
    · -- and a notification moves the summary
      obtain ⟨j, op, answer, post⟩ := e
      subst hop
      obtain ⟨v, hv⟩ : ∃ v, ((system T env).state h).counters[n]? = some v :=
        ⟨_, getElem?_eq_getElem hwatching.known⟩
      have hv' : v = epoch := by
        rw [← hbefore, count, getD_eq_getElem?_getD, hv]
        rfl
      have hmoved := count_bump hexec hv (by rw [hv']; exact hlt)
      rw [System.state_cons] at hcount
      omega
    · exact hquiet hpending

theorem seen_kept (hp : p ∈ ps) (c : Prop) :
    (system T env).Kept (Good T env) fun h =>
      Watching T env n epoch ps h ∧ (c → SeenClean T env n epoch p h) :=
  fun e h hlegal hexec hgood hboth =>
    ⟨watching_kept e h hlegal hexec hgood hboth.1,
      fun hc => seenClean_cons hexec hgood hboth.1 hp (hboth.2 hc)⟩

/-! ### What a remembered epoch stands for -/

/-- The moment itself is the last one at its epoch. -/
theorem LastClean.now (hclean : AllClean ((system T env).state h) ps) :
    LastClean T env n epoch ps h :=
  ⟨[], h, rfl, hclean, fun _ _ hsplit => absurd (append_eq_nil_iff.1 hsplit.symm).2⟩

/-- A moment at another epoch is not the last one. -/
theorem LastClean.cons (hlast : LastClean T env n epoch ps h)
    (hne : count ((system T env).state (e :: h)) n ≠ epoch) :
    LastClean T env n epoch ps (e :: h) := by
  obtain ⟨t, base, rfl, hclean, hafter⟩ := hlast
  refine ⟨e :: t, base, rfl, hclean, fun t₁ t₂ hsplit hnil => ?_⟩
  cases t₁ with
  | nil =>
    subst hsplit
    exact hne
  | cons e' t₁ =>
    cases hsplit
    exact hafter t₁ t₂ rfl hnil

/-- Where every page is seen clean, the summary still standing at the epoch. -/
theorem cleanSeen_of_seen (hlt : epoch < u64Max) (hwatching : Watching T env n epoch ps h)
    (hseen : ∀ p ∈ ps, SeenClean T env n epoch p h) (hdisciplined : Disciplined h)
    (hlast : count ((system T env).state h) n ≠ epoch → LastClean T env n epoch ps h) :
    CleanSeen T env n epoch ps h := by
  have hsettled : count ((system T env).state h) n = epoch → Settled T env n ps h :=
    fun hcount p hp => hseen p hp hlt hdisciplined hcount
  refine ⟨hwatching.le_count, hsettled, ?_⟩
  by_cases hcount : count ((system T env).state h) n = epoch
  · exact .now fun p hp => (hsettled hcount p hp).1
  · exact hlast hcount

/-- **A remembered epoch keeps its meaning**, whatever the threads do. -/
theorem cleanSeen_kept (hlt : epoch < u64Max) : (system T env).Kept (Good T env) fun h =>
      Watching T env n epoch ps h ∧ (Disciplined h → CleanSeen T env n epoch ps h) := by
  rintro e h hlegal hexec hgood ⟨hwatching, hclean⟩
  have hwatching' := watching_kept e h hlegal hexec hgood hwatching
  refine ⟨hwatching', fun hdisciplined => ?_⟩
  have hbefore := hclean hdisciplined.2
  exact cleanSeen_of_seen hlt hwatching' (fun p hp => seenClean_cons hexec hgood hwatching hp
      fun _ _ hcount => hbefore.settled hcount p hp)
    hdisciplined hbefore.last.cons

/-- **The remembered epoch of a range.** -/
theorem cached_seen (hlegal : (system T env).Legal (Good T env) h)
    (hcached : (((system T env).state h).layouts r).cleanReadEpoch ≠ u64Max) :
    ∃ n, HasSummary T env r n h ∧ (((system T env).state h).layouts r).cleanReadEpoch < u64Max ∧
      (Disciplined h → CleanSeen T env n
        (((system T env).state h).layouts r).cleanReadEpoch (T.pages r) h) := by
  suffices hall : ∃ n, HasSummary T env r n h ∧
      (((system T env).state h).layouts r).cleanReadEpoch < u64Max ∧
      Watching T env n (((system T env).state h).layouts r).cleanReadEpoch (T.pages r) h ∧
      (Disciplined h → CleanSeen T env n
        (((system T env).state h).layouts r).cleanReadEpoch (T.pages r) h) by
    obtain ⟨n, hsummary, hlt, -, hclean⟩ := hall
    exact ⟨n, hsummary, hlt, hclean⟩
  induction hlegal with
  | nil => exact absurd rfl hcached
  | @cons e h hrest hexec hgood ih =>
    -- at the store, and at every other event
    have hknown : ∃ n, HasSummary T env r n h ∧ (e.post.layouts r).cleanReadEpoch < u64Max ∧
        Watching T env n (e.post.layouts r).cleanReadEpoch (T.pages r) h ∧
        (Disciplined h → CleanSeen T env n (e.post.layouts r).cleanReadEpoch (T.pages r) h) := by
      rcases (effect_of_executes hexec).clean_epoch with hsame | hop
      · rw [hsame]
        exact ih (by rw [← hsame]; exact hcached)
      · obtain ⟨j, op, answer, post⟩ := e
        simp only at hop
        subst hop
        obtain ⟨hlt, n, hsummary, hle, hclean⟩ := hgood
        exact ⟨n, hsummary, hlt, ⟨layout_subscribed hrest hsummary, hle⟩, hclean⟩
    obtain ⟨n, hsummary, hlt, hboth⟩ := hknown
    exact ⟨n, hasSummary_kept e h hrest hexec hgood hsummary, hlt,
      cleanSeen_kept hlt e h hrest hexec hgood hboth⟩

/-! ### The moments of a call -/

/-- The thread has begun a residency check of the range. -/
def Checking (i r : ℕ) (h : Hist) : Prop :=
  ∃ t base s₀, h = t ++ ⟨i, .mark (.enter r), (), s₀⟩ :: base ∧ ∀ e ∈ t, NotEntry i e

/-- At some moment of the call the summary stood at the epoch. -/
def CountedInCall (T : Topology) (env : ℕ → Answer) (i r n epoch : ℕ) : Hist → Prop :=
  InCall T env i r fun s => count s n = epoch

theorem Checking.cons (hchecking : Checking i r h) (he : NotEntry i e) : Checking i r (e :: h) := by
  obtain ⟨t, base, s₀, rfl, hinside⟩ := hchecking
  refine ⟨e :: t, base, s₀, rfl, fun e' he' => ?_⟩
  rcases mem_cons.1 he' with rfl | he'
  · exact he
  · exact hinside e' he'

theorem InCall.cons {S : Shared → Prop} (hmoment : InCall T env i r S h) (he : NotEntry i e) :
    InCall T env i r S (e :: h) := by
  obtain ⟨t, t', base, s₀, rfl, hinside, hS⟩ := hmoment
  refine ⟨e :: t, t', base, s₀, rfl, fun e' he' => ?_, hS⟩
  rcases mem_cons.1 he' with rfl | he'
  · exact he
  · exact hinside e' he'

theorem CleanInCall.cons (hclean : CleanInCall T env i r h) (he : NotEntry i e) :
    CleanInCall T env i r (e :: h) :=
  InCall.cons (S := fun s => AllClean s (T.pages r)) hclean he

theorem inCall_stable {S : Shared → Prop} :
    (system T env).Stable (Good T env) i (InCall T env i r S) :=
  fun _ _ _ _ _ hne hmoment => hmoment.cons fun hsame => absurd hsame hne

theorem Checking.now {S : Shared → Prop} (hchecking : Checking i r h)
    (hS : S ((system T env).state h)) : InCall T env i r S h := by
  obtain ⟨t, base, s₀, rfl, hinside⟩ := hchecking
  exact ⟨[], t, base, s₀, rfl, hinside, hS⟩

/-- The call is in progress while its thread begins no other. -/
theorem checking_frame {α : Type} {x : Thread α} {P : Hist → Prop} {Q : α → Hist → Prop}
    (hwithin : x.Within fun op => ∀ q, op ≠ .mark (.enter q)) (hx : Ensures T env i x P Q) :
    Ensures T env i x (fun h => P h ∧ Checking i r h) fun a h => Q a h ∧ Checking i r h :=
  .frameWithin (fun _ _ _ _ _ hne hchecking => hchecking.cons fun hsame => absurd hsame hne)
    (fun _ _ _ _ _ _ hop hchecking => hchecking.cons fun _ => hop) hwithin hx

/-- **The epoch read in a call, if remembered, makes the range clean at a moment of the
call.** -/
theorem LastClean.in_call (hlast : LastClean T env n epoch (T.pages r) h)
    (hcounted : CountedInCall T env i r n epoch h) : CleanInCall T env i r h := by
  obtain ⟨t, base, rfl, hclean, hafter⟩ := hlast
  obtain ⟨t₁, t', base', s₀, hsplit, hinside, hcount⟩ := hcounted
  rcases append_eq_append_iff.1 hsplit with ⟨a, rfl, hbase⟩ | ⟨a, rfl, hbase⟩
  · -- the clean moment is the later one
    subst hbase
    refine ⟨t, a ++ t', base', s₀, by simp, fun e he => hinside e (by simpa using he), ?_⟩
    rw [append_assoc]
    exact hclean
  · cases a with
    | nil =>
      subst hbase
      exact ⟨t₁, t', base', s₀, by simp, hinside, hclean⟩
    | cons e a =>
      refine absurd ?_ (hafter t₁ _ rfl (by simp))
      rw [← hbase]
      exact hcount

/-! ### The summary of a range -/

theorem mem_coverage : p ∈ coverage ps ↔ p ∈ ps := mem_mergeSort

theorem observeVisibilitySummary_sat {p : ℕ} : Ensures T env i (observeVisibilitySummary p n)
      (fun h => n < ((system T env).state h).counters.length)
      fun _ => Subscribed T env n [p] := by
  have hknown : (system T env).Kept (Good T env) fun h =>
      n < ((system T env).state h).counters.length :=
    fun _ _ _ hexec _ hlt => lt_of_lt_of_le hlt (effect_of_executes hexec).counters_mono
  refine locked_sat (steady_of_kept hknown) (fun _ => steady_of_kept subscribed_kept) ?_
  refine .perform (fun _ => subscribed_kept.stable) fun h answer s hlegal hboth hexec => ?_
  obtain ⟨-, rfl, hpage⟩ := exec_onPage hexec
  refine ⟨trivial, hknown _ h hlegal hexec trivial hboth.2, fun q hq => ?_⟩
  rw [mem_singleton] at hq
  subst hq
  rw [System.state_cons, hpage]
  exact mem_append_right _ (mem_singleton.2 rfl)

/-- **A new summary** is published with all its subscribers. -/
theorem createSummary_sat : Ensures T env i (createSummary ps) (fun _ => True)
      fun n => Subscribed T env n ps := by
  have hnew : Ensures T env i newSummary (fun _ => True) fun n h =>
      Subscribed T env n [] h := by
    refine .perform (fun n => subscribed_kept.stable) fun h answer s _ _ hexec => ?_
    cases hexec
    exact ⟨trivial, by simp, nofun⟩
  refine hnew.bind fun n => ?_
  -- the pages still to be subscribed are the ones left in the loop
  have hloop : Ensures T env i (forEach (fun p => observeVisibilitySummary p n) (coverage ps))
      (fun h => ∃ told, Subscribed T env n told h ∧ ∀ p ∈ coverage ps, p ∈ told ∨ p ∈ coverage ps)
      fun _ h => ∃ told, Subscribed T env n told h ∧ ∀ p ∈ coverage ps, p ∈ told ∨ p ∈ [] := by
    refine .forEach (I := fun left h => ∃ told, Subscribed T env n told h ∧
      ∀ p ∈ coverage ps, p ∈ told ∨ p ∈ left) (fun p left => ?_) _
    refine .exists_given fun told hcovered => ?_
    refine .imp (observeVisibilitySummary_sat.frame subscribed_kept)
      (fun h _ hsubscribed => ⟨hsubscribed.known, hsubscribed⟩) fun _ h _ hboth => ?_
    refine ⟨p :: told, ⟨hboth.2.known, fun q hq => ?_⟩, fun q hq => ?_⟩
    · rcases mem_cons.1 hq with rfl | hq
      · exact hboth.1.member q (mem_singleton.2 rfl)
      · exact hboth.2.member q hq
    · rcases hcovered q hq with htold | hleft
      · exact .inl (mem_cons_of_mem _ htold)
      · rcases mem_cons.1 hleft with rfl | hleft
        · exact .inl mem_cons_self
        · exact .inr hleft
  refine .bind (hloop.pre fun h _ hnew => ⟨[], hnew, fun p => .inr⟩) fun _ => ?_
  refine .bind (Q := fun _ => Subscribed T env n (coverage ps))
    (.perform (fun _ => subscribed_kept.stable) fun h answer s hlegal htold hexec => ?_) fun _ => ?_
  · obtain ⟨told, hsubscribed, hcovered⟩ := htold
    have hall : Subscribed T env n (coverage ps) h :=
      ⟨hsubscribed.known, fun p hp => hsubscribed.member p
        ((hcovered p hp).resolve_right not_mem_nil)⟩
    have hgood : Good T env ⟨i, .insertSummary (coverage ps) n, answer, s⟩ h :=
      ⟨hall.known, hall.member⟩
    exact ⟨hgood, subscribed_kept _ h hlegal hexec hgood hall⟩
  · refine .bind (perform_kept subscribed_kept .unlockInterner
      fun _ _ _ => trivial) fun _ => ?_
    exact fun h _ hsubscribed =>
      ⟨hsubscribed.known, fun p hp => hsubscribed.member p (mem_coverage.2 hp)⟩

theorem internSummary_sat : Ensures T env i (internSummary ps) (fun _ => True)
      fun n => Subscribed T env n ps := by
  refine (Safe.perform .lockInterner fun _ _ _ => trivial).bind fun _ => ?_
  have hfind : Ensures T env i (findSummary (coverage ps)) (fun _ => True)
      fun known h => ∀ n, known = some n → Subscribed T env n (coverage ps) h := by
    refine .perform (fun known => (System.Kept.forall fun n =>
      .imp subscribed_kept).stable) fun h answer s hlegal _ hexec => ?_
    refine ⟨trivial, fun n hn => ?_⟩
    have hmem : (coverage ps, n) ∈ ((system T env).state h).interner := by
      have hexec : exec i (.findSummary (coverage ps)) ((system T env).state h) =
        some (answer, s) := hexec
      simp only [exec] at hexec
      split at hexec
      · cases hexec
        obtain ⟨l₁, l₂, heq, -⟩ := lookup_eq_some_iff.1 hn
        rw [heq]
        simp
      · cases hexec
    exact subscribed_kept _ h hlegal hexec trivial (interner_subscribed hlegal hmem)
  refine hfind.bind fun known => ?_
  cases known with
  | none => exact createSummary_sat.pre fun _ _ _ => trivial
  | some n =>
    refine .bind (.pre (perform_kept subscribed_kept
      .unlockInterner fun _ _ _ => trivial) fun h _ hknown => hknown n rfl) fun _ => ?_
    exact fun h _ hsubscribed =>
      ⟨hsubscribed.known, fun p hp => hsubscribed.member p (mem_coverage.2 hp)⟩

/-- **The summary of a range.** -/
theorem visibilitySummary_sat :
    Ensures T env i (visibilitySummary T r) (fun _ => True)
      fun n h => HasSummary T env r n h ∧ Subscribed T env n (T.pages r) h := by
  have hbegin : Ensures T env i (beginSummary r) (fun _ => True)
      fun known h => ∀ n, known = some n → HasSummary T env r n h := by
    refine .perform (fun known => (System.Kept.forall fun n =>
      .imp hasSummary_kept).stable) fun h answer s hlegal _ hexec => ?_
    refine ⟨trivial, fun n hn => ?_⟩
    subst hn
    have hsummary : HasSummary T env r n h := by
      have hexec : exec i (.beginSummary r) ((system T env).state h) = some (some n, s) := hexec
      simp only [exec] at hexec
      split at hexec
      · cases hexec
        assumption
      · simp only [map_eq_some_iff] at hexec
        obtain ⟨_, -, hpair⟩ := hexec
        cases hpair
    exact hasSummary_kept _ h hlegal hexec trivial hsummary
  refine hbegin.bind fun known => ?_
  cases known with
  | some n =>
    exact fun h hlegal hknown => ⟨hknown n rfl, layout_subscribed hlegal (hknown n rfl)⟩
  | none =>
    refine .bind (internSummary_sat.pre fun _ _ _ => trivial) fun n => ?_
    refine .bind (Q := fun _ h => HasSummary T env r n h ∧
      Subscribed T env n (T.pages r) h) (.perform (fun _ =>
        (hasSummary_kept.and subscribed_kept).stable)
        fun h answer s hlegal hsubscribed hexec => ?_) fun _ h _ hboth => hboth
    have hgood : Good T env ⟨i, .finishSummary r n, answer, s⟩ h :=
      ⟨hsubscribed.known, hsubscribed.member⟩
    refine ⟨hgood, ?_, subscribed_kept _ h hlegal hexec hgood hsubscribed⟩
    have hexec : exec i (.finishSummary r n) ((system T env).state h) = some (answer, s) := hexec
    simp only [exec] at hexec
    split at hexec
    · cases hexec
      simp [HasSummary, setLayout_layouts]
    · cases hexec

/-! ### The walk -/

/-- The hint of a page, where it may be trusted. -/
theorem loadHint_sat (hp : p ∈ ps) : Ensures T env i (loadHint p) (Watching T env n epoch ps)
      fun hint h => Watching T env n epoch ps h ∧
        (hint = .clean → SeenClean T env n epoch p h) := by
  refine .perform (fun hint => (seen_kept hp _).stable) fun h answer s hlegal hwatching hexec => ?_
  refine ⟨trivial, watching_kept _ h hlegal hexec trivial hwatching, ?_⟩
  rintro rfl - hdisciplined -
  have hexec : exec i (.loadHint p) ((system T env).state h) = some (.clean, s) := hexec
  simp only [exec, some.injEq, Prod.mk.injEq] at hexec
  obtain ⟨hhint, rfl⟩ := hexec
  exact ⟨hint_clean hlegal hhint, hdisciplined.1 n⟩

theorem snapshotLocked_sat (hp : p ∈ ps) :
    Ensures T env i (locked p (snapshotLocked p)) (Watching T env n epoch ps)
      fun state h => Watching T env n epoch ps h ∧
        (state = .clean → SeenClean T env n epoch p h) := by
  have hlock : Ensures T env i (act (.lockPage p)) (Watching T env n epoch ps)
      fun _ h => Quiet T env i p h ∧ Watching T env n epoch ps h := by
    refine .perform (fun _ => quiet_stable.and (watching_kept.stable))
      fun h answer s hlegal hwatching hexec => ?_
    refine ⟨trivial, ?_, watching_kept _ h hlegal hexec trivial hwatching⟩
    have hexec : exec i (.lockPage p) ((system T env).state h) = some (answer, s) := hexec
    simp only [exec, map_eq_some_iff, acquire_eq_some] at hexec
    obtain ⟨_, ⟨hfree, rfl⟩, hpair⟩ := hexec
    cases hpair
    refine ⟨by simp [setPage_pages], fun m hpending => ?_⟩
    exact pending_locked hlegal hpending hfree
  have hread : Ensures T env i (readPage p)
      (fun h => Quiet T env i p h ∧ Watching T env n epoch ps h)
      fun page h => Watching T env n epoch ps h ∧
        (page.visibility = .clean → SeenClean T env n epoch p h) := by
    refine .perform (fun page => (seen_kept hp _).stable) fun h answer s hlegal hboth hexec => ?_
    refine ⟨trivial, watching_kept _ h hlegal hexec trivial
      hboth.2, fun hclean _ _ _ => ⟨?_, hboth.1.2 n⟩⟩
    obtain ⟨-, rfl, hpage⟩ := exec_onPage hexec
    rw [System.state_cons, hpage]
    exact hclean
  refine hlock.bind fun _ => ?_
  refine .bind (Q := fun state h => Watching T env n epoch ps h ∧
    (state = .clean → SeenClean T env n epoch p h)) (hread.bind fun page => ?_) fun state =>
      .bind (perform_kept (seen_kept hp _) (.unlockPage p) fun _ _ _ => trivial)
        fun _ h _ hboth => hboth
  cases page.visibility with
  | clean => exact fun h _ hboth => ⟨hboth.1, fun _ => hboth.2 rfl⟩
  | gpuNewer o =>
    refine .bind ((perform_kept watching_kept (.ownerPoint o)
      fun _ _ _ => trivial).pre fun h _ hboth => hboth.1) fun owner => ?_
    exact fun h _ hwatching => ⟨hwatching, fun hclean => by cases hclean⟩
  | _ => exact fun h _ hboth => ⟨hboth.1, fun hclean => by cases hclean⟩

/-- **The visibility of a page**, as a residency check samples it. -/
theorem visibilityState_sat (hp : p ∈ ps) :
    Ensures T env i (visibilityState p) (Watching T env n epoch ps)
      fun state h => Watching T env n epoch ps h ∧
        (state = .clean → SeenClean T env n epoch p h) := by
  refine (loadHint_sat hp).bind fun hint => ?_
  cases hint with
  | clean => exact fun h _ hboth => ⟨hboth.1, fun _ => hboth.2 rfl⟩
  | cpuNewer => exact fun h _ hboth => ⟨hboth.1, nofun⟩
  | unavailable => exact (snapshotLocked_sat hp).pre fun h _ hboth => hboth.1

variable (declaration : DeviceAccessDeclaration)

/-- **The walk**: if it answers that all pages are clean, each of them was seen clean. -/
theorem scanPages_sat : ∀ left allClean, (∀ p ∈ left, p ∈ ps) →
      Ensures T env i (scanPages declaration left allClean) (Watching T env n epoch ps)
        fun result h => Watching T env n epoch ps h ∧ (result.1 = true → result.2 = true →
          allClean = true ∧ ∀ p ∈ left, SeenClean T env n epoch p h) := by
  intro left
  induction left with
  | nil =>
    exact fun allClean _ h _ hwatching =>
      ⟨hwatching, fun _ hclean => ⟨hclean, nofun⟩⟩
  | cons p left ih =>
    intro allClean hmem
    have hp : p ∈ ps := hmem p mem_cons_self
    have hleft : ∀ q ∈ left, q ∈ ps := fun q hq => hmem q (mem_cons_of_mem _ hq)
    refine (visibilityState_sat hp).bind fun state => ?_
    cases state with
    | clean =>
      show Ensures T env i (if declaration.kind.writes then _ else _) _ _
      split
      · exact fun h _ hboth => ⟨hboth.1, nofun⟩
      · refine .imp ((ih allClean hleft).frame (seen_kept hp True))
          (fun h _ hboth => ⟨hboth.1, hboth.1, fun _ => hboth.2 rfl⟩) fun result h _ hboth => ?_
        refine ⟨hboth.1.1, fun hready hclean => ?_⟩
        obtain ⟨hall, hseen⟩ := hboth.1.2 hready hclean
        refine ⟨hall, fun q hq => ?_⟩
        rcases mem_cons.1 hq with rfl | hq
        · exact hboth.2.2 trivial
        · exact hseen q hq
    | gpuNewer =>
      show Ensures T env i (if _ then _ else _) _ _
      split
      · refine .imp (ih false hleft) (fun h _ hboth => hboth.1)
          fun result h _ hboth => ⟨hboth.1, fun hready hclean => ?_⟩
        cases (hboth.2 hready hclean).1
      · exact fun h _ hboth => ⟨hboth.1, nofun⟩
    | _ => exact fun h _ hboth => ⟨hboth.1, nofun⟩

theorem Safe.visibilityState (p : ℕ) : Safe T env i (visibilityState p) := by
  refine (Safe.perform (.loadHint p) fun _ _ _ => trivial).bind fun hint => ?_
  cases hint with
  | unavailable =>
    refine Safe.locked (Safe.readPage.bind fun page => ?_)
    cases page.visibility with
    | gpuNewer => exact Safe.ownerPoint.bind fun _ => Safe.done _
    | _ => exact Safe.done _
  | _ => exact Safe.done _

theorem Safe.scanPages (left : List ℕ) (allClean : Bool) :
    Safe T env i (scanPages declaration left allClean) := by
  induction left generalizing allClean with
  | nil => exact .done _
  | cons p left ih =>
    refine (Safe.visibilityState p).bind fun state => ?_
    cases state with
    | clean =>
      show Safe T env i (if declaration.kind.writes then _ else _)
      split
      · exact .done _
      · exact ih allClean
    | gpuNewer =>
      show Safe T env i (if _ then _ else _)
      split
      · exact ih false
      · exact .done _
    | _ => exact Safe.done _

/-! ### The call -/

theorem exec_loadSummary {answer : ℕ} {s s' : Shared}
    (h : exec i (.loadSummary n) s = some (answer, s')) : count s' n = answer := by
  simp only [exec, map_eq_some_iff] at h
  obtain ⟨v, hv, hpair⟩ := h
  cases hpair
  rw [count, getD_eq_getElem?_getD, hv]
  rfl

theorem loadSummary_sat : Ensures T env i (loadSummary n)
      (fun h => Subscribed T env n ps h ∧ Checking i r h)
      fun epoch h => Watching T env n epoch ps h ∧ CountedInCall T env i r n epoch h := by
  refine .perform (fun epoch => watching_kept.stable.and inCall_stable)
    fun h answer s hlegal hboth hexec => ?_
  have hsubscribed := subscribed_kept ⟨i, .loadSummary n, answer, s⟩ h hlegal hexec trivial hboth.1
  have hcount := exec_loadSummary (i := i) hexec
  exact ⟨trivial, ⟨hsubscribed, by rw [System.state_cons, hcount]⟩,
    (hboth.2.cons fun _ q hop => by cases hop).now hcount⟩

/-- A hit of the cache. -/
def Hit (T : Topology) (env : ℕ → Answer) (i r : ℕ) (h : Hist) : Prop :=
  Disciplined h → CleanInCall T env i r h

theorem hit_stable {i : ℕ} : (system T env).Stable (Good T env) i (Hit T env i r) :=
  fun _ _ _ _ _ hne hhit hdisciplined =>
    (hhit hdisciplined.2).cons fun hsame => absurd hsame hne

/-- **A hit of the cache** finds the range clean at a moment of the call. -/
theorem cleanReadCached_sat {F : Hist → Prop} (hF : (system T env).Kept (Good T env) F) :
    Ensures T env i (cleanReadCached r epoch)
      (fun h => (HasSummary T env r n h ∧ CountedInCall T env i r n epoch h) ∧ F h)
      fun hit h => (hit = true → Hit T env i r h) ∧ F h := by
  refine .frame hF ?_
  unfold cleanReadCached
  split
  · rename_i hepoch
    refine .bind (Q := fun cached h => cached = epoch → Hit T env i r h)
      (.perform (fun cached => ?_) fun h answer s hlegal hboth hexec => ?_)
      fun cached h _ hknown hit => hknown (of_decide_eq_true hit)
    · exact fun e h hlegal hexec hgood hne hknown heq =>
        hit_stable e h hlegal hexec hgood hne (hknown heq)
    · refine ⟨trivial, fun heq hdisciplined => ?_⟩
      cases hexec
      have hcached : (((system T env).state h).layouts r).cleanReadEpoch = epoch := heq
      obtain ⟨m, hsummary, -, hclean⟩ := cached_seen hlegal (by rw [hcached]; exact hepoch)
      have hm : m = n := some.inj (hsummary.symm.trans hboth.1)
      subst hm
      rw [hcached] at hclean
      exact ((hclean hdisciplined.2).last.in_call hboth.2).cons nofun
  · exact nofun

/-- **What a walk remembers.** -/
theorem rememberClean_sat {allClean : Bool} : Ensures T env i (rememberClean r n epoch allClean)
      (fun h => HasSummary T env r n h ∧ Watching T env n epoch (T.pages r) h ∧
        (allClean = true → ∀ p ∈ T.pages r, SeenClean T env n epoch p h))
      fun _ _ => True := by
  unfold rememberClean
  split
  · rename_i hcond
    refine .bind (Q := fun again h => again = epoch → epoch < u64Max ∧
      HasSummary T env r n h ∧ Watching T env n epoch (T.pages r) h ∧
        (Disciplined h → CleanSeen T env n epoch (T.pages r) h))
      (.perform (fun again => ?_) fun h answer s hlegal hknown hexec => ?_) fun again => ?_
    · intro e h hlegal hexec hgood _ hknown heq
      obtain ⟨hlt, hsummary, hclean⟩ := hknown heq
      exact ⟨hlt, hasSummary_kept e h hlegal hexec hgood hsummary,
        cleanSeen_kept hlt e h hlegal hexec hgood hclean⟩
    · refine ⟨trivial, fun heq => ?_⟩
      obtain ⟨hsummary, hwatching, hseen⟩ := hknown
      have hlt : epoch < u64Max := lt_of_le_of_ne
        (le_trans hwatching.le_count (count_le_max hlegal)) hcond.2
      have hwatching' := watching_kept ⟨i, .loadSummary n, answer, s⟩ h hlegal hexec
        trivial hwatching
      have hcount := (exec_loadSummary (i := i) hexec).trans heq
      refine ⟨hlt, hasSummary_kept _ h hlegal hexec trivial
        hsummary, hwatching', fun hdisciplined => ?_⟩
      exact cleanSeen_of_seen hlt hwatching' (fun p hp => seenClean_cons hexec trivial hwatching hp
          (hseen hcond.1 p hp)) hdisciplined (absurd hcount)
    · split
      · rename_i heq
        refine .perform (fun _ => .true) fun h answer s _ hknown _ => ?_
        obtain ⟨hlt, hsummary, -, hclean⟩ := hknown heq
        exact ⟨⟨hlt, n, hsummary, (hknown heq).2.2.1.le_count, hclean⟩, trivial⟩
      · exact fun _ _ _ => trivial
  · exact fun _ _ _ => trivial

variable {declaration : DeviceAccessDeclaration}

theorem scanReady_sat : Ensures T env i (scanReady T r n epoch declaration)
      (fun h => HasSummary T env r n h ∧ Watching T env n epoch (T.pages r) h)
      fun _ _ => True := by
  refine .bind (((scanPages_sat declaration _ true fun _ hp => hp).frame
    hasSummary_kept).pre fun h _ hboth => ⟨hboth.2, hboth.1⟩) fun scanned => ?_
  split
  · rename_i hready
    refine .bind (rememberClean_sat.pre fun h _ hboth => ?_) fun _ _ _ _ => trivial
    exact ⟨hboth.2, hboth.1.1, fun hclean => (hboth.1.2 hready hclean).2⟩
  · exact fun _ _ _ => trivial

/-- Operations other than the beginning of a residency check. -/
theorem act_within {op : Op} (hop : ∀ q, op ≠ .mark (.enter q)) :
    (act op).Within fun op => ∀ q, op ≠ .mark (.enter q) := .perform hop

theorem visibilitySummary_within :
    (visibilitySummary T r).Within fun op => ∀ q, op ≠ .mark (.enter q) := by
  refine .bind (.perform (by simp)) fun known => ?_
  cases known with
  | some => trivial
  | none =>
    refine .bind ?_ fun n => .bind (act_within (by simp)) fun _ => trivial
    refine .bind (act_within (by simp)) fun _ =>
      .bind (.perform (by simp)) fun found => ?_
    cases found with
    | some => exact .bind (act_within (by simp)) fun _ => trivial
    | none =>
      refine .bind (.perform (by simp)) fun n => ?_
      refine .bind (.forEach (fun p => ?_)) fun _ =>
        .bind (act_within (by simp)) fun _ =>
          .bind (act_within (by simp)) fun _ => trivial
      exact .bind (act_within (by simp)) fun _ =>
        .bind (.perform (by simp)) fun _ =>
          .bind (act_within (by simp)) fun _ => trivial

theorem readReady_sat :
    Ensures T env i (readReady T r declaration) (Checking i r) fun _ _ => True := by
  refine .bind ((checking_frame visibilitySummary_within visibilitySummary_sat).pre
    fun h _ hchecking => ⟨trivial, hchecking⟩) fun n => ?_
  refine .bind ((loadSummary_sat.frame hasSummary_kept).pre
    fun h _ hboth => ⟨⟨hboth.1.2, hboth.2⟩, hboth.1.1⟩) fun epoch => ?_
  refine .bind ((cleanReadCached_sat (hasSummary_kept.and watching_kept)).pre
    fun h _ hboth => ⟨⟨hboth.2, hboth.1.2⟩, hboth.2, hboth.1.1⟩) fun hit => ?_
  cases hit with
  | true =>
    exact .bind (.perform (fun _ => .true)
      fun h answer s _ hknown _ => ⟨hknown.1 rfl, trivial⟩) fun _ _ _ _ => trivial
  | false => exact scanReady_sat.pre fun h _ hboth => hboth.2

/-- An operation of the call leaves it in progress. -/
theorem perform_checking (op : Op) (hgood : ∀ answer s h, Good T env ⟨i, op, answer, s⟩ h)
    (hop : ∀ q, op ≠ .mark (.enter q)) :
    Ensures T env i (perform op) (Checking i r) fun _ => Checking i r :=
  (checking_frame (.perform hop) (Safe.perform op hgood)).imp
    (fun _ _ hchecking => ⟨trivial, hchecking⟩) fun _ _ _ hboth => hboth.2

/-- What the answer that a record is whole says. -/
theorem exec_fractured {s s' : Shared} (h : exec i (.layout r .fractured) s = some (false, s')) :
    ∃ o, (s.layouts r).owner = some o ∧ ¬ Fractured s o := by
  simp only [exec] at h
  split at h
  · simp only [LayoutAct.run] at h
    split at h
    · cases h
    · rename_i o howner
      simp only [map_eq_some_iff] at h
      obtain ⟨owner, hrecord, hpair⟩ := h
      refine ⟨o, howner, ?_⟩
      rintro ⟨owner', hrecord', hfractured⟩
      rw [hrecord] at hrecord'
      cases hrecord'
      rw [hfractured] at hpair
      cases hpair
  · cases h

/-- **The owner record of a layout answers for the range**: at a moment of the call it owned all
pages. -/
theorem currentLocked_sat : Ensures T env i (currentLocked r declaration) (Checking i r)
      fun current h => current = true → OwnedInCall T env i r h := by
  refine .bind (perform_checking (.layout r .point) (fun _ _ _ => trivial) (by simp))
    fun owner => ?_
  split
  · refine .bind (Q := fun fractured h => fractured = false → OwnedInCall T env i r h)
      (.perform (fun fractured e h hlegal hexec hgood hne howned hwhole =>
        inCall_stable e h hlegal hexec hgood hne (howned hwhole))
      fun h answer s hlegal hchecking hexec => ⟨trivial, fun hanswer => ?_⟩) fun fractured => ?_
    · subst hanswer
      obtain ⟨o, howner, hwhole⟩ := exec_fractured hexec
      exact InCall.cons (hchecking.now ⟨o, howner, owned_of_unfractured hlegal howner hwhole⟩)
        fun _ q hop => by cases hop
    · exact fun h _ howned hcurrent => howned (by simpa using hcurrent)
  · exact fun h _ _ hfalse => by cases hfalse

theorem ownerCurrentFor_sat : Ensures T env i (ownerCurrentFor r declaration) (Checking i r)
      fun current h => (current = true → OwnedInCall T env i r h) ∧ Checking i r h := by
  refine .bind (perform_checking (.lockLayout r) (fun _ _ _ => trivial) (by simp)) fun _ => ?_
  refine .bind (.pre (checking_frame ?_ currentLocked_sat)
    fun h _ hchecking => ⟨hchecking, hchecking⟩) fun current => ?_
  · refine .bind (.perform (by simp)) fun owner => ?_
    split
    · exact .bind (.perform (by simp)) fun _ => trivial
    · trivial
  · refine .bind (Q := fun _ h => (current = true → OwnedInCall T env i r h) ∧ Checking i r h)
      (.perform (fun _ => .and (fun e h hlegal hexec hgood hne howned hcurrent =>
        inCall_stable e h hlegal hexec hgood hne (howned hcurrent))
        fun _ _ _ _ _ hne hchecking => hchecking.cons fun hsame => absurd hsame hne)
        fun h answer s _ hboth _ => ?_) fun _ _ _ hboth => hboth
    have hinside : NotEntry i ⟨i, .unlockLayout r, answer, s⟩ := fun _ q hop => by cases hop
    exact ⟨trivial, fun hcurrent => InCall.cons (hboth.1 hcurrent) hinside, hboth.2.cons hinside⟩

/-- **Residency checks.** -/
theorem Safe.residentAccessReady : Safe T env i (residentAccessReady T r declaration) := by
  have henter : Ensures T env i (act (.mark (.enter r))) (fun _ => True) fun _ => Checking i r :=
    .perform (fun _ _ _ _ _ _ hne hchecking =>
      hchecking.cons fun hsame => absurd hsame hne)
      fun h answer s _ _ _ => ⟨trivial, [], h, s, rfl, fun e he => by cases he⟩
  refine henter.bind fun _ => ownerCurrentFor_sat.bind fun current => ?_
  split
  · rename_i hcurrent
    exact .bind (System.Sat.perform (fun _ => .true)
      fun h answer s _ hboth _ => ⟨hboth.1 hcurrent, trivial⟩) fun _ _ _ _ => trivial
  · split
    · refine .bind ((Safe.scanPages declaration _ true).pre
        fun _ _ _ => trivial) fun _ _ _ _ => trivial
    · exact readReady_sat.pre fun h _ hboth => hboth.2

end Nixe.Memory
