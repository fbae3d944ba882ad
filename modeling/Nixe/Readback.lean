/-
**A readback never brings back stale bytes.**

`ensure_cpu_visible_with` reads three tokens under the lock of the page (its visibility epoch, its
owner record and the point of the record), asks the device for the bytes without any lock, and takes
the lock again.  If the epoch is the same and the record can be detached at the same point, the
bytes are stored.

What makes the tokens sufficient: every publication of the page and every CPU write that takes it
from a device moves its epoch, and the advance of the shared record moves its point.  There is one
exception: a page whose epoch is exhausted changes hands without moving it, but then only into the
invalid state, which it never leaves.

Main definitions:

* `TokenValid` — what the tokens of a readback stand for, whatever happened since;
* `Requested` — with the bytes the page had when they were requested;
* `Counts` — how often a thread has found a page in the hands of a device.

Main results:

* `tokenValid_kept`, `requested_kept` — no thread ends it;
* `publishReadback_sat` — how the publication of a stored readback ends;
* `ensureCpuVisibleWith_sat` — **the bytes of a readback are stored only while its tokens are
  current, and the call goes on only while a device owns the page**;
* `Safe.waiting` — so does every CPU access that waits for a readback, and in a peaceful run it does
  not fail for a conflict.
-/
import Nixe.DeviceOwnership

set_option autoImplicit false

namespace Nixe.Memory

open Interleaving

variable {T : Topology} {env : ℕ → Answer} {i p n rounds : ℕ}
  {declaration : DeviceAccessDeclaration} {e : Event Shared Resp} {h : Hist}
  {token : ReadbackToken} {page : Page} {V : PageVisibility → Prop} {α : Type}
  {bytes : List UInt8} {M : ℕ → Hist → Prop}

/-! ### Advancing a record -/

theorem exec_advance {r : ℕ} {s s' : Shared}
    (h : exec i (.layout r (.advance declaration)) s = some (true, s')) :
    ∃ o owner advanced, (s.layouts r).owner = some o ∧ s.owner? o = some owner ∧
      owner.advance declaration = some advanced ∧ s' = s.setOwner o advanced := by
  simp only [exec] at h
  split at h
  · simp only [LayoutAct.run] at h
    split at h
    · cases h
    · rename_i o howner
      simp only [Option.map_eq_some_iff] at h
      obtain ⟨owner, hrecord, h⟩ := h
      split at h
      · cases h
      · rename_i advanced hadvance
        cases h
        exact ⟨o, owner, advanced, howner, hrecord, hadvance, rfl⟩
  · cases h

/-- The record has this point and is fractured, so it keeps it for ever. -/
def Frozen (T : Topology) (env : ℕ → Answer) (o point : ℕ) (h : Hist) : Prop :=
  ∃ owner, ((system T env).state h).owner? o = some owner ∧ owner.point = point ∧
    owner.fractured = true

theorem frozen_kept {o point : ℕ} : (system T env).Kept (Good T env) (Frozen T env o point) := by
  rintro e h - hexec - ⟨owner, hrecord, hpoint, hfractured⟩
  obtain ⟨owner', hrecord', -, hsame, -⟩ := (effect_of_executes hexec).owner_mono hrecord
  rw [hsame hfractured] at hrecord'
  exact ⟨owner, hrecord', hpoint, hfractured⟩

/-! ### Epochs and points only grow -/

theorem epoch_le_cons (hexec : (system T env).Executes e h) (hgood : Good T env e h) :
    (((system T env).state h).pages p).visibilityEpoch ≤ (e.post.pages p).visibilityEpoch := by
  rcases transition_or_same hexec with ⟨visibility, epoch, hop, -, hepoch, -⟩ | ⟨-, hepoch, -⟩
  · rw [hepoch]
    exact (hgood.transition hop).epoch_le
  · rw [hepoch]

/-- The tokens of a readback: at the same epoch the page is still owned by the record, unless
its epochs are exhausted and it was given up. -/
structure TokenValid (T : Topology) (env : ℕ → Answer) (p : ℕ) (token : ReadbackToken)
    (h : Hist) : Prop where
  record : ∃ owner, ((system T env).state h).owner? token.owner = some owner ∧
    token.point ≤ owner.point
  epoch_le : token.epoch ≤ (((system T env).state h).pages p).visibilityEpoch
  owned : (((system T env).state h).pages p).visibilityEpoch = token.epoch →
    (((system T env).state h).pages p).visibility = .gpuNewer token.owner ∨
    (((system T env).state h).pages p).visibility = .invalid ∧
      u64Max ≤ (((system T env).state h).pages p).visibilityEpoch

theorem TokenValid.epoch_eq (hvalid : TokenValid T env p token h)
    (hexec : (system T env).Executes e h) (hgood : Good T env e h)
    (hepoch : (e.post.pages p).visibilityEpoch = token.epoch) :
    (((system T env).state h).pages p).visibilityEpoch = token.epoch :=
  le_antisymm (hepoch ▸ epoch_le_cons hexec hgood) hvalid.epoch_le

theorem TokenValid.not_cpuVisible (hvalid : TokenValid T env p token h)
    (hepoch : (((system T env).state h).pages p).visibilityEpoch = token.epoch) :
    (((system T env).state h).pages p).visibility.cpuVisible ≠ true := by
  rcases hvalid.owned hepoch with howned | ⟨hinvalid, -⟩
  · rw [howned]
    exact Bool.false_ne_true
  · rw [hinvalid]
    exact Bool.false_ne_true

/-- An advance of the owner of the page moves the point of the token's record. -/
theorem TokenValid.point_lt {r o : ℕ} {s : Shared} (hvalid : TokenValid T env p token h)
    (hepoch : (((system T env).state h).pages p).visibilityEpoch = token.epoch)
    (hlayout : (((system T env).state h).layouts r).owner = some o)
    (hpage : (((system T env).state h).pages p).visibility = .gpuNewer o)
    (hexec : (system T env).Executes ⟨i, .layout r (.advance declaration), true, s⟩ h) :
    ∃ owner, s.owner? token.owner = some owner ∧ token.point < owner.point := by
  obtain ⟨o', owner, advanced, hlayout', hrecord, hadvance, rfl⟩ := exec_advance hexec
  rw [hlayout] at hlayout'
  cases hlayout'
  have ho : o = token.owner := by
    rcases hvalid.owned hepoch with howned | ⟨hinvalid, -⟩
    · rw [hpage] at howned
      exact PageVisibility.gpuNewer.inj howned
    · rw [hpage] at hinvalid
      cases hinvalid
  subst ho
  obtain ⟨owner', hrecord', hle⟩ := hvalid.record
  rw [hrecord] at hrecord'
  cases hrecord'
  have hlt := (RangeDeviceOwner.advance_eq_some hadvance).2.1
  exact ⟨advanced, by rw [setOwner_owner? hrecord, if_pos rfl], by omega⟩

/-- **The tokens stay valid**, whatever the threads do. -/
theorem tokenValid_kept : (system T env).Kept (Good T env) (TokenValid T env p token) := by
  intro e h _ hexec hgood hvalid
  obtain ⟨owner, hrecord, hpoint⟩ := hvalid.record
  obtain ⟨owner', hrecord', hle, -⟩ := (effect_of_executes hexec).owner_mono hrecord
  have hmono := epoch_le_cons (p := p) hexec hgood
  refine ⟨⟨owner', hrecord', le_trans hpoint hle⟩, le_trans hvalid.epoch_le hmono, fun hepoch => ?_⟩
  rw [System.state_cons] at hepoch ⊢
  have hbefore := hvalid.epoch_eq hexec hgood hepoch
  rcases transition_or_same hexec with ⟨visibility, epoch, hop, hpost, hpostEpoch, -⟩ |
    ⟨hpost, hpostEpoch, -⟩
  · -- a transition that keeps the epoch of a page the CPU does not own
    have hsame : epoch = (((system T env).state h).pages p).visibilityEpoch := by
      rw [← hpostEpoch, hepoch, hbefore]
    right
    rcases (hgood.transition hop).epoch_kept hsame with hcpu | ⟨rfl, hlimit⟩
    · exact absurd hcpu (hvalid.not_cpuVisible hbefore)
    · refine ⟨hpost, ?_⟩
      rw [hpostEpoch]
      rcases hvalid.owned hbefore with howned | ⟨-, hmax⟩
      · exact hlimit (by rw [howned]; rfl)
      · rw [hsame]
        exact hmax
  · rw [hpost, hpostEpoch]
    exact hvalid.owned hbefore

/-! ### No new bytes since the request -/

/-- At the tokens' epoch and point the page has not been given new bytes since the request. -/
structure Requested (T : Topology) (env : ℕ → Answer) (i p : ℕ) (token : ReadbackToken)
    (h : Hist) : Prop where
  valid : TokenValid T env p token h
  untouched : ∃ t base s₀,
    h = t ++ ⟨i, .mark (.request p token.owner token.point), (), s₀⟩ :: base ∧
    ((((system T env).state h).pages p).visibilityEpoch = token.epoch →
      (∀ owner, ((system T env).state h).owner? token.owner = some owner →
        owner.point = token.point) →
      Untouched T env p t
        (⟨i, .mark (.request p token.owner token.point), (), s₀⟩ :: base))

/-- An event that gives the page new bytes moves one of the tokens. -/
theorem touch_moves_token (hexec : (system T env).Executes e h)
    (hgood : Good T env e h) (hvalid : TokenValid T env p token h)
    (htouch : Touches p ((system T env).state h) e)
    (hepoch : (e.post.pages p).visibilityEpoch = token.epoch)
    (hpoint : ∀ owner, e.post.owner? token.owner = some owner → owner.point = token.point) :
    False := by
  have hbefore := hvalid.epoch_eq hexec hgood hepoch
  have hnotCpu := hvalid.not_cpuVisible hbefore
  obtain ⟨j, op, answer, post⟩ := e
  cases op with
  | page q change =>
    cases change with
    | copyBytes =>
      have hq : q = p := htouch
      subst hq
      exact hnotCpu hgood
    | setVisibility visibility epoch =>
      cases visibility with
      | gpuNewer o =>
        have hq : q = p := htouch
        subst hq
        have htransition : Transition T env _ h q (.gpuNewer o) epoch := hgood
        have hpost : (post.pages q).visibilityEpoch = epoch := by
          rw [(exec_onPage hexec).2.2]
          rfl
        rcases htransition.epoch_kept (by rw [← hpost, hepoch, hbefore]) with hcpu | ⟨hne, -⟩
        · exact hnotCpu hcpu
        · cases hne
      | _ => exact htouch
    | _ => exact htouch
  | layout r change =>
    cases change with
    | advance =>
      obtain ⟨hanswer, o, hlayout, hpage⟩ := htouch
      rw [hanswer] at hexec
      obtain ⟨owner, hrecord, hlt⟩ := hvalid.point_lt hbefore hlayout hpage hexec
      exact hlt.ne' (hpoint owner hrecord)
    | _ => exact htouch
  | _ => exact htouch

/-- **Nothing new since the request**, whatever the threads do. -/
theorem requested_kept : (system T env).Kept (Good T env) (Requested T env i p token) := by
  intro e h hlegal hexec hgood hrequested
  obtain ⟨hvalid, t, base, s₀, rfl, huntouched⟩ := hrequested
  have hvalid' := tokenValid_kept e _ hlegal hexec hgood hvalid
  refine ⟨hvalid', e :: t, base, s₀, rfl, fun hepoch hpoint => ?_⟩
  refine ⟨fun htouch => touch_moves_token hexec hgood hvalid htouch hepoch hpoint,
    huntouched ?_ fun owner hrecord => ?_⟩
  · exact le_antisymm (hepoch ▸ epoch_le_cons hexec hgood) hvalid.epoch_le
  · obtain ⟨owner', hrecord', hle, -⟩ := (effect_of_executes hexec).owner_mono hrecord
    obtain ⟨known, hknown, hle'⟩ := hvalid.record
    rw [hrecord] at hknown
    cases hknown
    have := hpoint owner' hrecord'
    omega

/-- A page that is reported as conflicting is. -/
theorem visibleOrError_fair (hlegal : (system T env).Legal (Good T env) h)
    (hholds : Holds T env i p page h) :
    Fair T env .conflictingAccess (visibleOrError page.visibility) h := by
  intro hconflict hpeace
  refine (peaceful_state hlegal hpeace).2 p ?_
  rw [hholds.1]
  cases hvisibility : page.visibility with
  | conflicting => rfl
  | _ =>
    rw [hvisibility] at hconflict
    cases hconflict

/-! ### The first critical section -/

theorem ownerPoint_sat {o : ℕ} : Ensures T env i (ownerPoint o) (Holds T env i p page)
      fun answer h => Holds T env i p page h ∧
        ∃ owner, ((system T env).state h).owner? o = some owner ∧ answer.2 ≤ owner.point := by
  have hkept : ∀ point, (system T env).Kept (Good T env) fun h =>
      ∃ owner, ((system T env).state h).owner? o = some owner ∧ point ≤ owner.point := by
    rintro point e h - hexec - ⟨owner, hrecord, hle⟩
    obtain ⟨owner', hrecord', hmono, -⟩ := (effect_of_executes hexec).owner_mono hrecord
    exact ⟨owner', hrecord', le_trans hle hmono⟩
  refine .perform (fun answer => holds_stable.and ((hkept _).stable))
    fun h answer s _ hholds hexec => ?_
  have hexec : exec i (.ownerPoint o) ((system T env).state h) = some (answer, s) := hexec
  simp only [exec, Option.map_eq_some_iff] at hexec
  obtain ⟨owner, hrecord, hpair⟩ := hexec
  cases hpair
  exact ⟨trivial, hholds, owner, hrecord, le_rfl⟩

/-- How the first critical section ends. -/
def Begun (T : Topology) (env : ℕ → Answer) (p : ℕ) : ReadbackBegun → Hist → Prop
  | .ok token => TokenValid T env p token
  | .error result => Fair T env .conflictingAccess result

theorem begun_kept (begun : ReadbackBegun) :
    (system T env).Kept (Good T env) (Begun T env p begun) := by
  cases begun with
  | ok => exact tokenValid_kept
  | error result => exact fair_kept result

/-- The first critical section begins a readback only if a device owns the page. -/
theorem beginLocked_sat (page : Page) : Ensures T env i (beginLocked p) (Holds T env i p page)
      fun begun h => Begun T env p begun h ∧
        (begun.isOk = true → page.visibility.gpuOwned = true) := by
  refine readPage_known ?_
  have hother : ∀ visibility, page.visibility = visibility →
      Ensures T env i (.done (.error (visibleOrError visibility)) : Thread ReadbackBegun)
        (Holds T env i p page) fun begun h => Begun T env p begun h ∧
          (begun.isOk = true → visibility.gpuOwned = true) := by
    rintro _ rfl h hlegal hholds
    exact ⟨visibleOrError_fair hlegal hholds, fun hok => by cases hok⟩
  cases hvisibility : page.visibility with
  | gpuNewer =>
    cases hgeneration : checkedAdd page.generation 1 with
    | none =>
      refine .bind (((Safe.publishVisibility hides_invalid).answers
        publishVisibility_answers).pre fun _ _ _ => trivial) fun result h _ hpost => ?_
      cases result with
      | error => exact ⟨hpost.1.fair rfl, fun _ => rfl⟩
      | ok => exact ⟨fair_of_ne (by simp), fun _ => rfl⟩
    | some =>
      refine ownerPoint_sat.bind fun answer => fun h _ hboth => ⟨⟨hboth.2, ?_, fun _ => .inl ?_⟩,
        fun _ => rfl⟩
      · rw [hboth.1.1]
      · rw [hboth.1.1, hvisibility]
  | _ => exact hother _ hvisibility

/-! ### The second critical section -/

/-- While the thread publishes the bytes it has stored: the page is locked, the record it may
still have is fractured, and it has been given no other bytes. -/
structure Publishing (T : Topology) (env : ℕ → Answer) (i p : ℕ) (token : ReadbackToken)
    (h : Hist) : Prop where
  locked : (((system T env).state h).pages p).lock = some i
  detached : ∀ o, (((system T env).state h).pages p).visibility = .gpuNewer o →
    Fractured ((system T env).state h) o
  untouched : ∃ t base s₀ bytes,
    h = t ++ ⟨i, .page p (.storeReadback token.owner token.point bytes), (), s₀⟩ :: base ∧
    Untouched T env p t
      (⟨i, .page p (.storeReadback token.owner token.point bytes), (), s₀⟩ :: base)

/-- The publication goes on past an event that leaves the lock, gives the page to no device
and gives it no bytes. -/
theorem Publishing.cons (hexec : (system T env).Executes e h)
    (hpublishing : Publishing T env i p token h) (hlock : (e.post.pages p).lock = some i)
    (hvisibility : ∀ o, (e.post.pages p).visibility = .gpuNewer o →
      (((system T env).state h).pages p).visibility = .gpuNewer o)
    (htouch : ¬ Touches p ((system T env).state h) e) :
    Publishing T env i p token (e :: h) := by
  obtain ⟨t, base, s₀, bytes, rfl, huntouched⟩ := hpublishing.untouched
  refine ⟨hlock, fun o ho => ?_, e :: t, base, s₀, bytes, rfl, htouch, huntouched⟩
  exact (effect_of_executes hexec).fractured_mono (hpublishing.detached o (hvisibility o ho))

/-- An advance does not touch a page whose record is fractured. -/
theorem advance_not_touches {j r : ℕ} {s : Shared} {answer : Bool}
    (hexec : (system T env).Executes ⟨j, .layout r (.advance declaration), answer, s⟩ h)
    (hdetached : ∀ o, (((system T env).state h).pages p).visibility = .gpuNewer o →
      Fractured ((system T env).state h) o) : ¬ Touches p ((system T env).state h)
      ⟨j, .layout r (.advance declaration), answer, s⟩ := by
  rintro ⟨hanswer, o, hlayout, hpage⟩
  rw [hanswer] at hexec
  obtain ⟨o', owner, advanced, hlayout', hrecord, hadvance, -⟩ := exec_advance hexec
  rw [hlayout] at hlayout'
  cases hlayout'
  obtain ⟨owner', hrecord', hfractured⟩ := hdetached o hpage
  rw [hrecord] at hrecord'
  cases hrecord'
  rw [(RangeDeviceOwner.advance_eq_some hadvance).1] at hfractured
  cases hfractured

theorem publishing_stable : (system T env).Stable (Good T env) i (Publishing T env i p token) := by
  intro e h _ hexec _ hne hpublishing
  have hpage := (effect_of_executes hexec).page_of_locked hpublishing.locked hne
  refine hpublishing.cons hexec (by rw [hpage]; exact hpublishing.locked)
    (fun o ho => by rw [hpage] at ho; exact ho) fun htouch => ?_
  obtain ⟨j, op, answer, post⟩ := e
  -- whoever touches the page by an operation on it holds its mutex
  have hheld : ∀ change, op = .page p change → False := by
    rintro change rfl
    have hlock := (exec_onPage hexec).1
    rw [hpublishing.locked] at hlock
    exact hne (Option.some.inj hlock).symm
  cases op with
  | page q change =>
    cases change with
    | copyBytes =>
      have hq : q = p := htouch
      subst hq
      exact hheld _ rfl
    | setVisibility visibility =>
      cases visibility with
      | gpuNewer =>
        have hq : q = p := htouch
        subst hq
        exact hheld _ rfl
      | _ => exact htouch
    | _ => exact htouch
  | layout r change =>
    cases change with
    | advance => exact advance_not_touches hexec hpublishing.detached htouch
    | _ => exact htouch
  | _ => exact htouch

theorem publishing_own (hV : ∀ o, ¬ V (.gpuNewer o)) (hexec : (system T env).Executes e h)
    (hop : LocalTo p V e.op) (hpublishing : Publishing T env i p token h) :
    Publishing T env i p token (e :: h) := by
  obtain ⟨j, op, answer, post⟩ := e
  cases op with
  | page q change =>
    obtain ⟨rfl, hchange⟩ := hop
    have hpage := (exec_onPage hexec).2.2
    refine hpublishing.cons hexec (by rw [hpage, PageAct.run_lock]; exact hpublishing.locked)
      (fun o ho => ?_) fun htouch => ?_
    · rw [hpage] at ho
      cases change with
      | setVisibility =>
        subst ho
        exact absurd hchange (hV o)
      | _ => exact ho
    · cases change with
      | setVisibility visibility =>
        cases visibility with
        | gpuNewer o => exact absurd hchange (hV o)
        | _ => exact htouch
      | copyBytes => exact hchange
      | _ => exact htouch
  | bump | detach o | hostFails =>
    have hsame := (effect_of_executes hexec).page_untouched (p := p) (by simp) (by simp) (by simp)
    exact hpublishing.cons hexec (by rw [hsame]; exact hpublishing.locked)
      (fun o ho => by rw [hsame] at ho; exact ho) fun htouch => htouch
  | _ => exact hop.elim

/-- The publication frames a program of transitions of the page. -/
theorem publishing_frame {x : Thread α} {P : Hist → Prop} {Q : α → Hist → Prop}
    (hV : ∀ o, ¬ V (.gpuNewer o)) (hwithin : x.Within (LocalTo p V)) (hx : Ensures T env i x P Q) :
    Ensures T env i x (fun h => P h ∧ Publishing T env i p token h)
      fun a h => Q a h ∧ Publishing T env i p token h :=
  .frameWithin publishing_stable (fun _ _ _ hexec _ _ => publishing_own hV hexec) hwithin hx

variable (token : ReadbackToken)

/-- **The store of a readback**: its tokens are current. -/
theorem storeBytes_sat (hepoch : page.visibilityEpoch = token.epoch) :
    Ensures T env i (onPage p (.storeReadback token.owner token.point bytes))
      (fun h => Holds T env i p page h ∧ Requested T env i p token h ∧
        Frozen T env token.owner token.point h)
      fun _ h =>
        Holds T env i p ((PageAct.storeReadback token.owner token.point bytes).run page).2 h ∧
        Publishing T env i p token h := by
  refine .perform (fun _ => holds_stable.and publishing_stable) fun h answer s _ hknown hexec => ?_
  obtain ⟨hholds, hrequested, hfrozen⟩ := hknown
  obtain ⟨hlock, rfl, hpage⟩ := exec_onPage hexec
  have hnow : (((system T env).state h).pages p).visibilityEpoch = token.epoch := by
    rw [hholds.1, hepoch]
  obtain ⟨t, base, s₀, hsplit, huntouched⟩ := hrequested.untouched
  obtain ⟨owner, hrecord, hpoint, hfractured⟩ := hfrozen
  have hfixed : ∀ owner, ((system T env).state h).owner? token.owner = some owner →
      owner.point = token.point := by
    intro other hother
    rw [hrecord] at hother
    cases hother
    exact hpoint
  refine ⟨⟨hlock, hrequested.valid.owned hnow, ⟨owner, hrecord, hpoint, hfractured⟩, t, base, s₀,
    hsplit, huntouched hnow hfixed⟩, ⟨by rw [System.state_cons, hpage, hholds.1], hholds.2⟩, ?_,
    fun o ho => ?_, [], h, s, bytes, rfl, trivial⟩
  · rw [System.state_cons, hpage]
    exact hlock
  · rw [System.state_cons, hpage] at ho
    have ho : (((system T env).state h).pages p).visibility = .gpuNewer o := ho
    rcases hrequested.valid.owned hnow with howned | ⟨hinvalid, -⟩
    · rw [howned] at ho
      cases ho
      exact (effect_of_executes
        (e := ⟨i, .page p (.storeReadback token.owner token.point bytes), (), s⟩)
        hexec).fractured_mono ⟨owner, hrecord, hfractured⟩
    · rw [hinvalid] at ho
      cases ho

theorem setGeneration_publishing {generation : ℕ} :
    Ensures T env i (onPage p (.setGeneration generation))
      (fun h => Holds T env i p page h ∧ Publishing T env i p token h)
      fun _ h => Holds T env i p { page with generation := generation } h ∧
        Publishing T env i p token h := by
  refine .perform (fun _ => holds_stable.and publishing_stable) fun h answer s _ hknown hexec => ?_
  obtain ⟨hlock, rfl, hpage⟩ := exec_onPage hexec
  obtain ⟨⟨rfl, -⟩, hpublishing⟩ := hknown
  refine ⟨trivial, ⟨hpage, hlock⟩, hpublishing.cons hexec (by rw [hpage]; exact hlock)
    (fun o ho => by rw [hpage] at ho; exact ho) fun htouch => htouch⟩

/-- The bytes of the readback are in the page while they are published. -/
theorem Publishing.readBack {token : ReadbackToken}
    (hpublishing : Publishing T env i p token h) : ReadBack p h := by
  obtain ⟨t, base, s₀, bytes, rfl, huntouched⟩ := hpublishing.untouched
  clear hpublishing
  induction t with
  | nil => exact .inl rfl
  | cons e t ih =>
    refine ReadBack.cons (fun o epoch hop => huntouched.1 ?_) (ih huntouched.2)
    obtain ⟨j, op, answer, post⟩ := e
    subst hop
    exact rfl

/-- The page of a readback that is not published: given up, or still the device's. -/
def Unpublished (T : Topology) (env : ℕ → Answer) (i p o : ℕ) (h : Hist) : Prop :=
  ∃ page, Holds T env i p page h ∧ (page.visibility = .invalid ∨ page.visibility = .gpuNewer o)

/-- The publication of a CPU write, before that of the readback. -/
theorem publishDirty_sat
    (hpage : page.visibility = .invalid ∨ page.visibility = .gpuNewer token.owner) :
    Ensures T env i ((publishCpuDirty p).bind fun result => .done (result.mapError dirtyError))
      (Holds T env i p page) fun result h => Refuses id result ∧
        Unpublished T env i p token.owner h := by
  refine (publishCpuDirty_sat.answers publishCpuDirty_answers).bind fun result h _ hpost => ?_
  have hlike : ∀ h, HoldsLike T env i p page h → Unpublished T env i p token.owner h := by
    rintro h ⟨moved, hholds, hsame, -⟩
    exact ⟨moved, hholds, by rw [hsame]; exact hpage⟩
  cases result with
  | error error =>
    refine ⟨refuses_error (hpost.1 error rfl), hpost.2.elim (fun hgone => ?_) (hlike h)⟩
    exact ⟨hgone.choose, hgone.choose_spec.1, .inl hgone.choose_spec.2⟩
  | ok => exact ⟨refuses_ok (), hlike h hpost.2⟩

/-- **The publication of a stored readback**: the page is clean, or the host or a counter
refuses it. -/
theorem publishReadback_sat
    (hpage : page.visibility = .invalid ∨ page.visibility = .gpuNewer token.owner) :
    Ensures T env i (publishReadback p)
      (fun h => (Holds T env i p page h ∧ Publishing T env i p token h) ∧
        Frozen T env token.owner token.point h)
      fun result h => ReadbackEnds T env ((system T env).state h) h i p token.owner token.point
        result := by
  have hfrozen : (system T env).Kept (Good T env)
      (Frozen T env token.owner token.point) := frozen_kept
  refine .attempt ((publishing_frame nofun (.bind publishCpuDirty_local
    (f := fun result => .done (result.mapError dirtyError)) fun _ => trivial)
    (publishDirty_sat token hpage)).frame hfrozen) (fun error h _ hpost => .inr ?_) fun _ => ?_
  · obtain ⟨moved, hholds, hmoved⟩ := hpost.1.1.2
    rw [hholds.1]
    exact ⟨hmoved, (hpost.1.1.1 error rfl).imp (congrArg _) (Or.imp (congrArg _) (congrArg _))⟩
  refine .pre (P := fun h => ∃ page, Holds T env i p page h ∧ Publishing T env i p token h ∧
    Frozen T env token.owner token.point h) (.exists fun page => ?_) fun h _ hpost =>
    ⟨hpost.1.1.2.choose, hpost.1.1.2.choose_spec.1, hpost.1.2, hpost.2⟩
  refine .attempt (.pre ((publishing_frame (fun o hV => by rcases hV with hV | hV <;> cases hV)
    publishVisibility_local
      (publishVisibility_sat.answers publishVisibility_answers)).frame hfrozen)
    fun h _ hknown => ⟨⟨⟨hknown.1, ?_⟩, hknown.2.1⟩, hknown.2.2⟩)
    (fun error h _ hpost => .inr ?_) fun _ => ?_
  · exact ⟨by rw [hknown.1.1]; exact hknown.1.2, fun hconflict => (by cases hconflict),
      fun _ => .inr ⟨rfl, hknown.2.1.readBack⟩⟩
  · obtain ⟨moved, hholds, hmoved⟩ := hpost.1.1.2
    rw [hholds.1]
    exact ⟨.inl hmoved,
      (hpost.1.1.1 error rfl).imp (congrArg _) (Or.imp (congrArg _) (congrArg _))⟩
  refine .pre (P := fun h => ∃ page, ((Holds T env i p page h ∧ Publishing T env i p token h) ∧
    Frozen T env token.owner token.point h) ∧ page.visibility = .clean)
    (.exists_given fun moved hmoved => ?_) fun h _ hpost => ⟨hpost.1.1.2.choose,
      ⟨⟨hpost.1.1.2.choose_spec.1, hpost.1.2⟩, hpost.2⟩, hpost.1.1.2.choose_spec.2⟩
  refine .bind ((publishing_frame nofun (hostFails_local fun _ => False) hostFails_holds).frame
    hfrozen)
    fun failed h _ hpost => .inl ⟨⟨?_, hpost.2, hpost.1.2.untouched⟩, ?_⟩
  · rw [hpost.1.1.1, hmoved]
  · cases failed with
    | true => exact .inr rfl
    | false => exact .inl rfl

/-- **The bytes of a readback are stored and published.** -/
theorem storeReadback_sat (hepoch : page.visibilityEpoch = token.epoch) :
    Ensures T env i (storeReadback p token bytes)
      (fun h => Holds T env i p page h ∧ Requested T env i p token h ∧
        Frozen T env token.owner token.point h) fun _ _ => True := by
  have hfrozen : (system T env).Kept (Good T env)
      (Frozen T env token.owner token.point) := frozen_kept
  refine .pre (.given (a := page.visibility = .invalid ∨ page.visibility = .gpuNewer token.owner)
    fun hpage => ?_) fun h _ hknown => ⟨?_, hknown⟩
  · refine .bind (((storeBytes_sat token hepoch).frame hfrozen).pre
      fun h _ hknown => ⟨hknown, hknown.2.2⟩) fun _ => ?_
    refine .bind ((setGeneration_publishing token).frame hfrozen) fun _ => ?_
    refine .bind (publishReadback_sat token ?_) fun result => ?_
    · exact hpage
    · exact .bind (.perform (fun _ => .true) fun h answer s _ hends _ => ⟨hends, trivial⟩)
        fun _ _ _ _ => trivial
  · have howned := hknown.2.1.valid.owned (by rw [hknown.1.1, hepoch])
    rw [hknown.1.1] at howned
    exact howned.symm.imp_left And.left

/-- Detaching at the point of the token freezes the record. -/
theorem detachAt_sat : Ensures T env i (detachAt token.owner token.point) (Holds T env i p page)
      fun detached h => Holds T env i p page h ∧
        (detached = true → Frozen T env token.owner token.point h) := by
  refine .perform (fun _ => holds_stable.and
    ((System.Kept.imp frozen_kept).stable)) fun h answer s _ hholds hexec => ?_
  have hexec : exec i (.detachAt token.owner token.point) ((system T env).state h) =
      some (answer, s) := hexec
  simp only [exec, Option.map_eq_some_iff] at hexec
  obtain ⟨owner, hrecord, hpair⟩ := hexec
  split at hpair
  · rename_i hpoint
    cases hpair
    refine ⟨trivial, hholds, fun _ => ⟨{ owner with fractured := true }, ?_, hpoint, rfl⟩⟩
    rw [System.state_cons, setOwner_owner? hrecord, if_pos rfl]
  · cases hpair
    exact ⟨trivial, hholds, fun hfalse => by cases hfalse⟩

theorem refuses_noConflict {result : Except VisibilityError α} (hrefuses : Refuses id result) :
    result ≠ .error .conflictingAccess := by
  rintro rfl
  rcases hrefuses _ rfl with herror | herror | herror <;> cases herror

theorem abandonReadback_answers {error : VisibilityError} (hne : error ≠ .conflictingAccess) :
    (abandonReadback p error).Answers fun result => result ≠ .error .conflictingAccess :=
  publishVisibility_answers.attempt (fun _ hrefuses => refuses_noConflict hrefuses)
    fun _ hconflict => hne (Except.error.inj hconflict)

theorem publishReadback_answers :
    (publishReadback p).Answers fun result => result ≠ .error .conflictingAccess := by
  refine .attempt (S := Refuses id) (publishCpuDirty_answers.bind fun result hrefuses => ?_)
    (fun _ hrefuses => refuses_noConflict hrefuses) fun _ => publishVisibility_answers.attempt
      (fun _ hrefuses => refuses_noConflict hrefuses) fun _ => .last fun failed => ?_
  · cases result with
    | error error => exact refuses_error (hrefuses error rfl)
    | ok => exact refuses_ok ()
  · cases failed <;> exact fun hconflict => by cases hconflict

theorem useWriteback_answers {writeback : Option (List UInt8)} :
    (useWriteback T p token writeback).Answers
      fun result => result ≠ .error .conflictingAccess := by
  cases writeback with
  | none => exact abandonReadback_answers (by simp)
  | some bytes =>
    rw [useWriteback]
    split
    · refine .last fun _ => .last fun _ => publishReadback_answers.bind fun _ hresult => ?_
      exact .last fun _ => hresult
    · exact abandonReadback_answers (by simp)

theorem Safe.abandonReadback {error : VisibilityError} : Safe T env i (abandonReadback p error) :=
  (Safe.publishVisibility hides_invalid).attempt fun _ => .done _

theorem useWriteback_sat {writeback : Option (List UInt8)}
    (hepoch : page.visibilityEpoch = token.epoch) :
    Ensures T env i (useWriteback T p token writeback)
      (fun h => Holds T env i p page h ∧ Requested T env i p token h ∧
        Frozen T env token.owner token.point h) fun _ _ => True := by
  cases writeback with
  | none => exact Safe.abandonReadback.pre fun _ _ _ => trivial
  | some bytes =>
    rw [useWriteback]
    split
    · exact storeReadback_sat token hepoch
    · exact Safe.abandonReadback.pre fun _ _ _ => trivial

theorem finishLocked_sat {writeback : Option (List UInt8)} :
    Ensures T env i (finishLocked T p token writeback) (Requested T env i p token)
      fun answer h => ∀ result, answer = some result → Fair T env .conflictingAccess result h := by
  have hkept : (system T env).Kept (Good T env) (Requested T env i p token) := requested_kept
  refine .bind ((readPage_any.frame hkept).pre fun h _ hknown => ⟨trivial, hknown⟩) fun page => ?_
  split
  · intro h hlegal hboth result hanswer
    split at hanswer
    · cases hanswer
    · cases hanswer
      exact visibleOrError_fair hlegal hboth.1
  · rename_i hepoch
    refine .bind ((detachAt_sat token).frame hkept) fun detached => ?_
    split
    · rename_i hdetached
      refine .bind (((useWriteback_sat token (not_not.1 hepoch)).answers
        (useWriteback_answers token)).pre
          fun h _ hknown => ⟨hknown.1.1, hknown.2, hknown.1.2 hdetached⟩) fun _ => ?_
      rintro h - hpost _ ⟨rfl⟩
      exact fair_of_ne hpost.1
    · exact fun _ _ _ _ hnone => by cases hnone

/-! ### The loop -/

theorem awaitWriteback_sat : Ensures T env i (awaitWriteback p token) (TokenValid T env p token)
      fun _ => Requested T env i p token := by
  refine .bind (.perform (fun _ => requested_kept.stable) fun h answer s hlegal hvalid hexec => ?_)
    fun _ => perform_kept requested_kept .writeback fun _ _ _ => trivial
  have hvalid' := tokenValid_kept ⟨i, .mark _, answer, s⟩ h hlegal hexec trivial hvalid
  exact ⟨trivial, hvalid', [], h, s, rfl, fun _ _ => trivial⟩

/-- A count of the times the thread finds the page in the hands of a device. -/
structure Counts (T : Topology) (env : ℕ → Answer) (i p : ℕ) (M : ℕ → Hist → Prop) : Prop where
  kept : ∀ n, (system T env).Kept (Good T env) (M n)
  met : ∀ n h s, M n h → (s.pages p).visibility.gpuOwned = true →
    M (n + 1) (⟨i, .lockPage p, (), s⟩ :: h)

theorem counts_true : Counts T env i p fun _ _ => True :=
  ⟨fun _ _ _ _ _ _ _ => trivial, fun _ _ _ _ _ => trivial⟩

theorem counts_met {k : ℕ} : Counts T env i p (Met i k p rounds) := by
  refine ⟨fun n e h _ _ _ hmet => ?_, fun n h s hmet howned => ?_⟩
  · obtain ⟨t, s, base, rfl, hle⟩ := hmet
    exact ⟨e :: t, s, base, rfl, hle.trans (List.sublist_cons_self ..).countP_le⟩
  · obtain ⟨t, s₀, base, rfl, hle⟩ := hmet
    refine ⟨_ :: t, s₀, base, rfl, ?_⟩
    rw [List.countP_cons_of_pos (by simp [meets, howned])]
    omega

variable (hM : Counts T env i p M)
include hM

/-- A critical section that counts, if its answer says that a device owns the page. -/
theorem locked_counted {body : Thread α} {Q : α → Hist → Prop} {S : α → Prop}
    (hQ : ∀ a, (system T env).Kept (Good T env) (Q a))
    (hbody : ∀ page, Ensures T env i body (Holds T env i p page) fun a h =>
      Q a h ∧ (S a → page.visibility.gpuOwned = true)) :
    Ensures T env i (locked p body) (M n) fun a h => Q a h ∧ (S a → M (n + 1) h) := by
  have hkept := fun a => (hQ a).and (.imp (p := S a) (hM.kept (n + 1)))
  refine .bind (Q := fun _ h => ∃ page, Holds T env i p page h ∧
    (page.visibility.gpuOwned = true → M (n + 1) h)) ?_ fun _ => ?_
  · refine .perform (fun _ e h hlegal hexec hgood hne hknown => ?_)
      fun h answer s _ hknown hexec => ⟨trivial, s.pages p, ⟨rfl, ?_⟩, hM.met n h s hknown⟩
    · obtain ⟨page, hholds, hmet⟩ := hknown
      exact ⟨page, holds_stable e h hlegal hexec hgood hne hholds,
        fun howned => hM.kept _ e h hlegal hexec hgood (hmet howned)⟩
    · have hexec : exec i (.lockPage p) ((system T env).state h) = some (answer, s) := hexec
      obtain ⟨_, hacquired, hpost⟩ := of_mapped (after_of_exec hexec)
      obtain ⟨-, rfl⟩ := acquire_eq_some.1 hacquired
      rw [← hpost, setPage_pages, if_pos rfl]
  · refine .bind (Q := fun a h => Q a h ∧ (S a → M (n + 1) h)) (.exists fun page =>
      ((hbody page).frame (.imp (hM.kept (n + 1)))).post fun a h _ hboth =>
        ⟨hboth.1.1, fun hS => hboth.2 (hboth.1.2 hS)⟩) fun a => ?_
    exact (perform_kept (hkept a) (.unlockPage p) fun _ _ _ => trivial).bind
      fun _ _ _ hpost => hpost

/-- **Readbacks.**  The loop has no result only if a device owned the page in every round. -/
theorem ensureCpuVisibleWith_sat : Ensures T env i (ensureCpuVisibleWith T p rounds) (M n)
      fun answer h => (answer = none → M (n + rounds) h) ∧
        ∀ result, answer = some result → Fair T env .conflictingAccess result h := by
  induction rounds generalizing n with
  | zero => exact fun _ _ hknown => ⟨fun _ => hknown, fun _ hsome => by cases hsome⟩
  | succ rounds ih =>
    refine .bind (locked_counted hM begun_kept beginLocked_sat) fun begun => ?_
    cases begun with
    | error =>
      rintro h - hboth
      refine ⟨fun hnone => (by cases hnone), ?_⟩
      rintro _ ⟨rfl⟩
      exact hboth.1
    | ok token =>
      refine .bind (((awaitWriteback_sat token).frame (hM.kept (n + 1))).pre
        fun h _ hboth => ⟨hboth.1, hboth.2 rfl⟩) fun writeback => ?_
      refine .bind (locked_sat (steady_of_kept (requested_kept.and (hM.kept (n + 1))))
        (fun _ => steady_of_kept (.and (.forall fun result => .imp (fair_kept result))
          (hM.kept (n + 1)))) (((finishLocked_sat token).frame (hM.kept (n + 1))).pre
            fun h _ hboth => hboth.2)) fun answer => ?_
      cases answer with
      | some result => exact fun _ _ hboth => ⟨fun hnone => (by cases hnone), hboth.1⟩
      | none =>
        rw [show n + (rounds + 1) = n + 1 + rounds by omega]
        exact ih.pre fun _ _ hboth => hboth.2

/-! ### Accesses that wait for a readback -/

/-- How a call that may have to go on ends. -/
structure Outcome (T : Topology) (env : ℕ → Answer) (L : Hist → Prop)
    (result : Except (Option CanonicalPageError) α) (h : Hist) : Prop where
  waits : result = .error none → L h
  fair : Fair T env (some pageConflict) result h

omit hM in
theorem Outcome.of_error {β : Type} {L : Hist → Prop} {error : Option CanonicalPageError}
    (houtcome : Outcome T env L (.error error : Except _ α) h) :
    Outcome T env L (.error error : Except _ β) h :=
  ⟨fun hnone => houtcome.waits (by cases hnone; rfl), houtcome.fair.of_error⟩

omit hM in
theorem Outcome.ok {L : Hist → Prop} {a : α} : Outcome T env L (.ok a) h :=
  ⟨fun hnone => (by cases hnone), fun hconflict => (by cases hconflict)⟩

theorem prepareCpuAccess_sat : Ensures T env i (prepareCpuAccess T p rounds) (M n)
      (Outcome T env (M (n + rounds))) := by
  refine (ensureCpuVisibleWith_sat hM).bind fun answer h _ hpost => ?_
  cases answer with
  | none => exact ⟨fun _ => hpost.1 rfl, fun hconflict => by cases hconflict⟩
  | some result =>
    cases result with
    | ok => exact .ok
    | error error =>
      refine ⟨fun hnone => (by cases hnone), fun hconflict => hpost.2 _ rfl ?_⟩
      cases hconflict
      rfl

omit hM in
theorem outcome_kept {L : Hist → Prop} (hL : (system T env).Kept (Good T env) L)
    (result : Except (Option CanonicalPageError) α) :
    (system T env).Kept (Good T env) (Outcome T env L result) :=
  fun e h hlegal hexec hgood houtcome =>
    ⟨fun hnone => hL e h hlegal hexec hgood (houtcome.waits hnone),
      fair_kept result e h hlegal hexec hgood houtcome.fair⟩

omit hM in
/-- A call that goes on after a readback has a result. -/
theorem thenLocked_sat {x : Thread (Except CanonicalPageError α)} {P L : Hist → Prop}
    (hx : Ensures T env i x P (Fair T env pageConflict)) :
    Ensures T env i (thenLocked x) P (Outcome T env L) := by
  refine hx.bind fun result h _ hfair => ⟨fun hnone => ?_, hfair.mapError (Option.some_injective _)⟩
  cases result <;> cases hnone

/-- **A call that is repeated** has no result only if a device owned the page in every round. -/
theorem retrying_sat {x : Thread (Except CanonicalPageError (Option α))}
    (hx : ∀ n, Ensures T env i x (M n) fun result h =>
      Fair T env pageConflict result h ∧ (result = .ok none → M (n + 1) h)) :
    Ensures T env i (retrying T p x rounds) (M n) (Outcome T env (M (n + rounds))) := by
  induction rounds generalizing n with
  | zero => exact fun _ _ hknown => ⟨fun _ => hknown, fun hconflict => by cases hconflict⟩
  | succ rounds ih =>
    rw [show n + (rounds + 1) = n + 1 + rounds by omega]
    refine .attempt (Q := fun result h => (result = .ok none → M (n + 1) h) ∧
      Outcome T env (M (n + 1 + rounds)) result h) ((hx n).bind fun result h _ hpost => ?_)
      (fun _ _ _ hpost => hpost.2.of_error) fun result => ?_
    · cases result with
      | error error =>
        exact ⟨fun hnone => (by cases hnone), fun hnone => (by cases hnone),
          hpost.1.mapError (Option.some_injective _)⟩
      | ok a => exact ⟨fun hnone => hpost.2 (by cases hnone; rfl), .ok⟩
    cases result with
    | some => exact fun _ _ _ => .ok
    | none =>
      exact .pre (.attempt ((prepareCpuAccess_sat hM).frame (hM.kept (n + 1)))
        (fun _ _ _ hboth => hboth.1.of_error) fun _ => ih.pre fun _ _ hboth => hboth.2)
        fun h _ hpost => ⟨hpost.1 rfl, hpost.1 rfl⟩

omit hM in
theorem ensureBacking_fair {P : Hist → Prop} :
    Ensures T env i ensureBacking P (Fair T env pageConflict) := by
  refine .bind (Safe.hostFails.pre fun _ _ _ => trivial) fun failed _ _ _ => ?_
  cases failed <;> exact fun hconflict => by cases hconflict

/-- A readback, and then a CPU write that has a result. -/
theorem prepared_sat {x : Thread (Except CanonicalPageError α)}
    (hx : Ensures T env i x (Authorized T env i p) (Fair T env pageConflict)) :
    Ensures T env i (attempt (prepareCpuAccess T p rounds) fun _ =>
        attempt (thenLocked ensureBacking) fun _ => authorized p (thenLocked x)) (M n)
      (Outcome T env (M (n + rounds))) := by
  refine .attempt (prepareCpuAccess_sat hM) (fun _ _ _ houtcome => houtcome.of_error) fun _ => ?_
  refine .attempt (thenLocked_sat ensureBacking_fair) (fun _ _ _ houtcome => houtcome.of_error)
    fun _ => ?_
  exact (authorized_sat (fun result => steady_of_kept (outcome_kept (hM.kept _) result))
    (thenLocked_sat hx)).pre fun _ _ _ => trivial

theorem readLocked_sat {offset size : ℕ} : Ensures T env i (readLocked p offset size) (M n)
      fun result h => Fair T env pageConflict result h ∧ (result = .ok none → M (n + 1) h) := by
  refine locked_counted hM fair_kept fun page => ?_
  refine .attempt (cpuVisibleLocked_sat page)
    (fun _ _ _ hpost => ⟨hpost.2.of_error, fun hnone => by cases hnone⟩) fun visible => ?_
  refine .pre (.given fun hvisible =>
    readPage_sat.bind fun read h _ _ => ⟨fair_of_ne (by simp), ?_⟩)
    fun _ _ hpost => hpost.1
  cases visible with
  | false => exact fun _ => hvisible.2 rfl
  | true => exact fun hnone => by cases hnone

theorem read_sat {offset size : ℕ} : Ensures T env i (read T p offset size rounds) (M n)
      (Outcome T env (M (n + rounds))) := by
  refine .attempt (Q := fun result h => Outcome T env (fun _ => False) result h ∧ M n h)
    (fun h _ hknown => ⟨⟨fun hnone => ?_, fun hconflict => ?_⟩, hknown⟩)
    (fun _ _ _ hpost => ⟨fun hnone => (hpost.1.waits (by cases hnone; rfl)).elim,
      hpost.1.fair.of_error⟩) fun _ => ?_
  · unfold checkedEnd at hnone
    split at hnone <;> cases hnone
  · unfold checkedEnd at hconflict
    split at hconflict <;> cases hconflict
  · exact (retrying_sat hM fun n => readLocked_sat hM).pre fun _ _ hpost => hpost.2

theorem tryAtomicCompareExchange_sat {offset : ℕ} {expected replacement : List UInt8} :
    Ensures T env i (tryAtomicCompareExchange T p offset expected replacement) (M n)
      fun result h => Fair T env pageConflict result h ∧ (result = .ok none → M (n + 1) h) := by
  refine .attempt (Q := fun result h => Fair T env pageConflict result h ∧ M n h)
    (fun h _ hknown => ⟨fun hconflict => ?_, hknown⟩)
    (fun _ _ _ hpost => ⟨hpost.1.of_error, fun hnone => by cases hnone⟩) fun _ => ?_
  · unfold checkedEnd at hconflict
    split at hconflict <;> cases hconflict
  refine .attempt ((ensureBacking_fair.frame (hM.kept n)).pre fun _ _ hpost => ⟨trivial, hpost.2⟩)
    (fun _ _ _ hpost => ⟨hpost.1.of_error, fun hnone => by cases hnone⟩) fun _ => ?_
  exact (locked_counted hM fair_kept exchangeLocked_sat).pre fun _ _ hboth => hboth.2

omit hM in
/-- **An access that waits for a readback** gives up only after a device owned the page in every
round, and reports no conflict in a peaceful run. -/
theorem Safe.waiting {k : ℕ} {x : Thread (Except (Option CanonicalPageError) α)}
    (hx : Ensures T env i x (Met i k p rounds 0) (Outcome T env (Met i k p rounds (0 + rounds)))) :
    Safe T env i (waiting k p rounds x) := by
  refine System.Sat.bind (Q := fun _ => Met i k p rounds 0) (System.Sat.perform
    (fun _ => (counts_met.kept 0).stable)
    fun h answer s _ _ _ => ⟨trivial, [], s, h, rfl, Nat.zero_le _⟩) fun _ => System.Sat.bind hx
      fun result => ?_
  refine System.Sat.perform (fun _ => .true) fun h answer s _ houtcome _ =>
    ⟨⟨fun hnone => ?_, fun hconflict => ?_⟩, trivial⟩
  · have hmet := houtcome.waits (by cases result <;> cases hnone; rfl)
    rwa [Nat.zero_add] at hmet
  · exact houtcome.fair (by cases result <;> cases hconflict; rfl)

end Nixe.Memory
