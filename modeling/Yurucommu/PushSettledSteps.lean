import Yurucommu.PushSettledLists

/-!
What each statement of a run leaves behind: the list of the row, what the run knows of the row that
it has read, and what it has gathered while it holds the row.
-/

set_option autoImplicit false

namespace Yurucommu.PushSettled

open PushJob (Dispatch GatewayResult JobRow Worker leased maxNotificationPushAttempts recoverable
  seen stale)

section steps

variable {s s' : Store} {p q : Nat} {r : JobRow} {x : Worker} {i : Input}

structure Own (i : Input) (p : Nat) (s : Store) (x : Worker) : Prop where
  kept : Kept (work i p s x).1
  aware : Aware (work i p s x).1 (work i p s x).2
  ready : ∀ r, (work i p s x).1.job.row = some r → leased p r = true →
    Ready (work i p s x).1 r (work i p s x).2

theorem record_rows : (record i p s x).rows = s.rows := by
  cases x <;> try rfl
  all_goals
    unfold record
    dsimp only
    split <;> rfl

theorem Aware.frame (h : Aware s x) (hf : Frame s s') (hrow : s'.job.row = s.job.row)
    (hrows : ∀ a ∈ s.rows, a ∈ s'.rows) : Aware s' x := by
  cases x with
  | reclaim job n => exact ⟨hrows job h.1,h.2⟩
  | claim job n =>
    obtain ⟨hs,hl,hp⟩ := h
    refine ⟨hs,fun r hr hseen => ?_,fun hne r hr => ?_⟩
    · rw [hrow] at hr
      exact (hl r hr hseen).frame hf
    · rw [hrow] at hr
      exact hp hne r hr
  | _ => trivial

theorem mem_rows_work {a : JobRow} (h : a ∈ s.rows) : a ∈ (work i p s x).1.rows :=
  List.mem_append_right _ h

theorem own_still (hk : Kept s)
    (hrow : (PushJob.advance i.answer p s.job.row x).1 = s.job.row)
    (hf : Frame s (record i p s x)) (honce : (record i p s x).repeated = s.repeated)
    (haware : Aware s (PushJob.advance i.answer p s.job.row x).2)
    (hready : ∀ r, s.job.row = some r → leased p r = true →
      Ready (record i p s x) r (PushJob.advance i.answer p s.job.row x).2) : Own i p s x := by
  have hjob : (work i p s x).1.job.row = s.job.row := hrow
  have hframe : Frame s (work i p s x).1 := ⟨hf.1,hf.2,hf.3,hf.4,hf.5⟩
  have hrows : (work i p s x).1.rows = s.job.row.toList ++ s.rows := by
    rw [← hrow]
    rfl
  refine ⟨hk.still hjob (fun v hv => List.mem_append_right _ hv) hrows (honce.trans hk.once)
    (fun r hr a ha _ _ hl => hl.frame hframe) fun r hr hs => ?_,
    haware.frame hframe hjob fun a ha => mem_rows_work ha,fun r hr hl => ?_⟩
  · rw [hframe.unsaved]
    exact hk.idle r hr hs
  · rw [hjob] at hr
    refine (hready r hr hl).frame ⟨rfl,rfl,rfl,List.Subset.refl _,id⟩ fun a ha => ?_
    rw [hrows,List.mem_append,Option.mem_toList,hr] at ha
    rw [record_rows]
    exact ha.elim (fun h => Or.inr (Option.some.inj h).symm) Or.inl

theorem Frame.refl (s : Store) : Frame s s := ⟨rfl,rfl,rfl,List.Subset.refl _,id⟩

theorem own_reads (hk : Kept s)
    (hrow : (PushJob.advance i.answer p s.job.row x).1 = s.job.row) (hrec : record i p s x = s)
    (haware : Aware s (PushJob.advance i.answer p s.job.row x).2)
    (hready : ∀ r, s.job.row = some r → leased p r = true →
      Ready s r (PushJob.advance i.answer p s.job.row x).2) : Own i p s x := by
  refine own_still hk hrow ?_ ?_ haware ?_ <;> rw [hrec]
  · exact Frame.refl s
  · exact hready

theorem own_free {x' : Worker} (hk : Kept s)
    (hA : PushJob.advance i.answer p s.job.row x = (s.job.row,x')) (hrec : record i p s x = s)
    (haware : Aware s x') (hready : ∀ r, Ready s r x') : Own i p s x := by
  refine own_reads hk (by rw [hA]) hrec ?_ fun r _ _ => ?_ <;> rw [hA]
  · exact haware
  · exact hready r

theorem own_done (hk : Kept s)
    (hA : PushJob.advance i.answer p s.job.row x = (s.job.row,.done)) (hrec : record i p s x = s) :
    Own i p s x := own_free hk hA hrec trivial fun _ => trivial

theorem own_caught (job : JobRow) (d : PushJob.Dispatch) (hk : Kept s)
    (hadvance : PushJob.advance i.answer p s.job.row x =
      (s.job.row,.caught job d.remaining i.answer.error i.answer.first i.answer.second))
    (hrec : record i p s x = s)
    (hn : ∀ r, s.job.row = some r → leased p r = true → Narrowed s d.remaining) :
    Own i p s x := by
  refine own_reads hk (by rw [hadvance]) hrec ?_ fun r hr hl => ?_
  · rw [hadvance]
    trivial
  · rw [hadvance]
    exact hn r hr hl

theorem advance_fails (h : i.answer.fails = true) :
    PushJob.advance i.answer p s.job.row x = (s.job.row,PushJob.threw i.answer x) := if_pos h

theorem advance_runs (h : i.answer.fails = false) :
    PushJob.advance i.answer p s.job.row x = PushJob.statement i.answer p s.job.row x :=
  if_neg (by simp [h])

theorem own_writes {r' : JobRow} {x' : Worker} (hk : Kept s)
    (hA : PushJob.advance i.answer p s.job.row x = (some r',x'))
    (honce : (record i p s x).repeated = s.repeated) (hlisted : Listed (record i p s x) r')
    (hmatch : ∀ a ∈ s.rows, a.status = r'.status → a.updatedAt = r'.updatedAt →
      Listed (record i p s x) a)
    (hpersisted : ∀ a ∈ s.rows, a.pendingPusherIds ≠ none → r'.pendingPusherIds ≠ none)
    (hidle : r'.status ≠ .processing → (record i p s x).unsaved = [])
    (hdelivered : r'.status = .delivered → r'.pendingPusherIds = some [])
    (hfailed : r'.status = .failed → maxNotificationPushAttempts ≤ r'.attempts)
    (haware : ∀ s', s'.job.row = some r' → Frame (record i p s x) s' → Aware s' x')
    (hready : leased p r' = true → ∀ s', Frame (record i p s x) s' → s'.rows = r' :: s.rows →
      Ready s' r' x') : Own i p s x := by
  have hjob : (work i p s x).1.job.row = some r' := by
    change (PushJob.advance i.answer p s.job.row x).1 = some r'
    rw [hA]
  have hframe : Frame (record i p s x) (work i p s x).1 :=
    ⟨rfl,rfl,rfl,List.Subset.refl _,id⟩
  have hrows : (work i p s x).1.rows = r' :: s.rows := by
    change (PushJob.advance i.answer p s.job.row x).1.toList ++ s.rows = _
    rw [hA]
    rfl
  have hversions : (work i p s x).1.job.versions = r'.version :: s.job.versions := by
    change ((PushJob.advance i.answer p s.job.row x).1.map _).toList ++ s.job.versions = _
    rw [hA]
    rfl
  have hnext : (work i p s x).2 = x' := by
    change (PushJob.advance i.answer p s.job.row x).2 = x'
    rw [hA]
  refine ⟨hk.write hjob hversions hrows (honce.trans hk.once) (hlisted.frame hframe)
    (fun a ha hs hu => (hmatch a ha hs hu).frame hframe) hpersisted hidle hdelivered hfailed,?_,
    fun r hr hl => ?_⟩
  · rw [hnext]
    exact haware _ hjob hframe
  · obtain rfl := Option.some.inj (hjob.symm.trans hr)
    rw [hnext]
    exact hready hl _ hframe hrows

theorem Listed.of_pending {a b : JobRow} (h : Listed s a)
    (heq : b.pendingPusherIds = a.pendingPusherIds) : Listed s b := by
  refine ⟨fun hb => h.none ?_,fun ids hb => h.some ids ?_⟩ <;> rw [← heq] <;> exact hb

theorem Kept.row_listed (h : Kept s) (hr : s.job.row = some r) : Listed s r :=
  h.listed r hr r (h.current r hr) rfl rfl

theorem Kept.fresh (h : Kept s) {n : Nat} (hf : PushJob.Fresh p n s.job) {a : JobRow}
    (ha : a ∈ s.rows) : a.updatedAt ≠ n := hf.2 _ (h.versions a ha)

theorem own_select (hk : Kept s) : Own i p s .select := by
  cases hf : i.answer.fails with
  | true =>
    exact own_done hk (advance_fails hf) rfl
  | false =>
    have hnext : ∀ row, (∀ r, row = some r → r ∈ s.rows) →
        (∀ r, row = some r → s.job.row = some r) →
        Aware s (PushJob.statement i.answer p row .select).2 ∧
          ∀ r, Ready s r (PushJob.statement i.answer p row .select).2 := by
      intro row hin hrow
      cases row with
      | none => exact ⟨trivial,fun _ => trivial⟩
      | some job =>
        change Aware s (if job.status.terminal then .done else _) ∧ ∀ r, Ready s r _
        by_cases ht : job.status.terminal = true
        · rw [if_pos ht]
          refine ⟨trivial,fun r => ?_⟩
          change Ready s r (if job.status.terminal then .done else _)
          rw [if_pos ht]
          trivial
        · have hrun : (PushJob.statement i.answer p (some job) .select).2 =
              if job.status = .processing then
                if i.answer.first < job.updatedAt + PushJob.staleProcessingMs then .done
                else .reclaim job i.answer.second
              else .claim job i.answer.second := if_neg ht
          rw [if_neg ht,hrun]
          by_cases hs : job.status = .processing
          · simp only [hs,if_true]
            split
            · exact ⟨trivial,fun _ => trivial⟩
            · exact ⟨⟨hin job rfl,hs⟩,fun _ => trivial⟩
          · simp only [hs,if_false]
            refine ⟨⟨hs,fun r hr hseen => ?_,fun hp r hr => ?_⟩,fun _ => trivial⟩
            · exact hk.row_listed (hrow job rfl)
            · exact hk.persisted job (hin job rfl) hp r hr
    have hboth := hnext s.job.row hk.current fun _ h => h
    refine own_reads hk (by rw [advance_runs hf]; rfl) rfl ?_ fun r _ _ => ?_
    · rw [advance_runs hf]
      exact hboth.1
    · rw [advance_runs hf]
      exact hboth.2 r

theorem own_reclaim {job : JobRow} {n : Nat} (hk : Kept s) (hok : Ok p s (.reclaim job n))
    (hm : Statement.hits (seen job) s.job.row = true → s.unsaved = []) :
    Own i p s (.reclaim job n) := by
  cases hf : i.answer.fails with
  | true =>
    exact own_done hk (advance_fails hf) rfl
  | false =>
    cases hhit : Statement.hits (seen job) s.job.row with
    | false =>
      have hA : PushJob.advance i.answer p s.job.row (.reclaim job n) = (s.job.row,.done) := by
        rw [advance_runs hf]
        change (Statement.update _ _ _,if _ then _ else _) = _
        rw [hhit,Statement.update_of_not_hits hhit]
        rfl
      exact own_done hk hA rfl
    | true =>
      obtain ⟨r,hr,hseen⟩ := Statement.hits_iff.mp hhit
      have hA : PushJob.advance i.answer p s.job.row (.reclaim job n) =
          (some (PushJob.reclaim n r),.claim (PushJob.reclaim n job) i.answer.second) := by
        rw [advance_runs hf]
        change (Statement.update _ _ _,if _ then _ else _) = _
        rw [hhit,hr,Statement.update_some,if_pos hseen]
        rfl
      have hunsaved := hm hhit
      simp only [seen,Bool.and_eq_true,decide_eq_true_eq] at hseen
      have hjob := hk.listed r hr job hok.aware.1 hseen.1.symm hseen.2.symm
      refine own_writes hk hA rfl ((hk.row_listed hr).of_pending rfl) (fun a ha _ hu => ?_)
        (fun a ha hp => hk.persisted a ha hp r hr) (fun _ => hunsaved) (fun h => (by cases h))
        (fun h => (by cases h)) (fun s' hrow hframe => ?_) fun _ _ _ _ => trivial
      · exact absurd hu (hk.fresh hok.knows.2 ha)
      · refine ⟨fun h => (by cases h),fun _ _ _ => ?_,fun hp r' hr' => ?_⟩
        · exact (hjob.frame hframe).of_pending rfl
        · obtain rfl := Option.some.inj (hrow.symm.trans hr')
          exact hk.persisted job hok.aware.1 hp r hr

theorem own_claim {job : JobRow} {n : Nat} (hk : Kept s) (hok : Ok p s (.claim job n)) :
    Own i p s (.claim job n) := by
  cases hf : i.answer.fails with
  | true =>
    exact own_done hk (advance_fails hf) rfl
  | false =>
    cases hhit : Statement.hits (PushJob.claimable job n) s.job.row with
    | false =>
      have hA : PushJob.advance i.answer p s.job.row (.claim job n) = (s.job.row,.done) := by
        rw [advance_runs hf]
        change (Statement.update _ _ _,if _ then _ else _) = _
        rw [hhit,Statement.update_of_not_hits hhit]
        rfl
      exact own_done hk hA rfl
    | true =>
      obtain ⟨r,hr,hc⟩ := Statement.hits_iff.mp hhit
      have hA : PushJob.advance i.answer p s.job.row (.claim job n) =
          (some (PushJob.claim p n r),.loadPushEvent job n) := by
        rw [advance_runs hf]
        change (Statement.update _ _ _,if _ then _ else _) = _
        rw [hhit,hr,Statement.update_some,if_pos hc]
        rfl
      rw [PushJob.claimable,Bool.and_eq_true] at hc
      have hseen := hc.1
      obtain ⟨hstatus,hlisted,hpersisted⟩ := hok.aware
      have hidle : s.unsaved = [] := by
        simp only [seen,Bool.and_eq_true,decide_eq_true_eq] at hseen
        exact hk.idle r hr (hseen.1 ▸ hstatus)
      refine own_writes hk hA rfl ((hk.row_listed hr).of_pending rfl) (fun a ha _ hu => ?_)
        (fun a ha hp => hk.persisted a ha hp r hr) (fun h => absurd rfl h) (fun h => (by cases h))
        (fun h => (by cases h)) (fun _ _ _ => trivial) fun _ s' hframe _ => ?_
      · exact absurd hu (hk.fresh hok.knows.2 ha)
      · exact ⟨hframe.unsaved.trans hidle,rfl,(hlisted r hr hseen).frame hframe,
          fun hp => hpersisted hp r hr⟩

theorem own_loadPushEvent {job : JobRow} {n : Nat} (hk : Kept s)
    (hok : Ok p s (.loadPushEvent job n)) : Own i p s (.loadPushEvent job n) := by
  have hrec : record i p s (.loadPushEvent job n) =
      { s with withdrawn := s.withdrawn || !(i.answer.fails || i.answer.eligible) } := rfl
  cases hf : i.answer.fails with
  | true =>
    refine own_caught job (.start []) hk (by rw [advance_fails hf]; rfl) ?_ fun r hr hl => ?_
    · rw [hrec,hf]
      simp
    · exact narrowed_start (hok.ready r hr hl).1
  | false =>
    cases he : i.answer.eligible with
    | true =>
      have hsame : record i p s (.loadPushEvent job n) = s := by
        rw [hrec,he]
        simp
      cases hp : job.pendingPusherIds with
      | none =>
        have hA : PushJob.advance i.answer p s.job.row (.loadPushEvent job n) =
            (s.job.row,.selectPending job n) := by
          rw [advance_runs hf]
          simp only [PushJob.statement,he,if_true,hp]
        refine own_reads hk (by rw [hA]) hsame (by rw [hA]; trivial) fun r hr hl => ?_
        obtain ⟨hu,hn,hlisted,_⟩ := hok.ready r hr hl
        rw [hA]
        exact ⟨hu,hn,hlisted.none hp⟩
      | some ids =>
        have hA : PushJob.advance i.answer p s.job.row (.loadPushEvent job n) =
            (s.job.row,PushJob.dispatch i.answer job ids) := by
          rw [advance_runs hf]
          simp only [PushJob.statement,he,if_true,hp]
        refine own_reads hk (by rw [hA]) hsame (by rw [hA]; exact aware_dispatch ids)
          fun r hr hl => ?_
        obtain ⟨hu,_,hlisted,hpending⟩ := hok.ready r hr hl
        rw [hA]
        exact ready_dispatch hu (hpending (by simp [hp])) (hlisted.some ids hp)
    | false =>
      have hA : PushJob.advance i.answer p s.job.row (.loadPushEvent job n) =
          (s.job.row,.finish job (.start []) (some "notification is no longer eligible")
            i.answer.second) := by
        rw [advance_runs hf]
        simp only [PushJob.statement,he,Bool.false_eq_true,if_false]
      refine own_still hk (by rw [hA]) ?_ rfl (by rw [hA]; trivial) fun r hr hl => ?_
      · rw [hrec]
        exact ⟨rfl,rfl,rfl,List.Subset.refl _,fun h => by simp [h]⟩
      · rw [hA,hrec,hf,he]
        refine ⟨fun h => ?_,narrowed_start (hok.ready r hr hl).1⟩
        simp at h

theorem own_selectPending {job : JobRow} {n : Nat} (hk : Kept s)
    (hok : Ok p s (.selectPending job n)) (hc : consistent i s (.selectPending job n) = true)
    (hm : s.present.length ≤ maxNotificationPushDispatch) : Own i p s (.selectPending job n) := by
  cases hf : i.answer.fails with
  | true =>
    refine own_caught job (.start []) hk (by rw [advance_fails hf]; rfl) rfl
      fun r hr hl => narrowed_start (hok.ready r hr hl).1
  | false =>
    have hids : i.answer.pusherIds = s.present := by
      rw [of_decide_eq_true hc,List.take_of_length_le hm]
    have hA : PushJob.advance i.answer p s.job.row (.selectPending job n) =
        (s.job.row,.persistPending job n s.present) := by
      rw [advance_runs hf,← hids]
      rfl
    refine own_reads hk (by rw [hA]) rfl (by rw [hA]; trivial) fun r hr hl => ?_
    obtain ⟨hu,hn,ha⟩ := hok.ready r hr hl
    rw [hA]
    refine ⟨hu,hn,ha,fun id hid => List.mem_of_mem_filter hid,fun id _ hin => ?_,
      fun _ id hid _ hrem => List.mem_filter.mpr ⟨hid,decide_eq_true hrem⟩⟩
    rw [ha] at hin
    cases hin

theorem own_persistPending {job : JobRow} {n : Nat} {ids : List String} (hk : Kept s)
    (hok : Ok p s (.persistPending job n ids)) : Own i p s (.persistPending job n ids) := by
  cases hf : i.answer.fails with
  | true =>
    exact own_caught job (.start []) hk (by rw [advance_fails hf]; rfl) rfl
      fun r hr hl => narrowed_start (hok.ready r hr hl).1
  | false =>
    cases hhit : Statement.hits (leased p) s.job.row with
    | false =>
      have hA : PushJob.advance i.answer p s.job.row (.persistPending job n ids) =
          (s.job.row,.done) := by
        rw [advance_runs hf]
        change (Statement.update _ _ _,if _ then _ else _) = _
        rw [hhit,Statement.update_of_not_hits hhit]
        rfl
      exact own_done hk hA rfl
    | true =>
      obtain ⟨r,hr,hl⟩ := Statement.hits_iff.mp hhit
      have hA : PushJob.advance i.answer p s.job.row (.persistPending job n ids) =
          (some (PushJob.setPendingPusherIds ids n r),PushJob.dispatch i.answer job ids) := by
        rw [advance_runs hf]
        change (Statement.update _ _ _,if _ then _ else _) = _
        rw [hhit,hr,Statement.update_some,if_pos hl]
        rfl
      obtain ⟨hu,hn,_,hlists⟩ := hok.ready r hr hl
      have hstatus := (PushJob.leased_iff.mp hl).1
      refine own_writes hk hA rfl ⟨fun h => (by cases h),fun ids' h => ?_⟩
        (fun a ha hs ht => hk.listed r hr a ha hs (ht.trans hn.symm)) (fun _ _ _ h => (by cases h))
        (fun h => absurd hstatus h) (fun h => ?_) (fun h => ?_)
        (fun _ _ _ => aware_dispatch ids) fun _ s' hframe _ => ?_
      · cases h
        exact hlists
      · exact absurd (hstatus.symm.trans h) (by simp)
      · exact absurd (hstatus.symm.trans h) (by simp)
      · exact ready_dispatch (hframe.unsaved.trans hu) (fun h => (by cases h)) (hlists.frame hframe)

theorem own_selectPushers {job : JobRow} {d : Dispatch} (hk : Kept s)
    (hok : Ok p s (.selectPushers job d)) (hc : consistent i s (.selectPushers job d) = true) :
    Own i p s (.selectPushers job d) := by
  cases hf : i.answer.fails with
  | true =>
    refine own_caught job d hk (by rw [advance_fails hf]; rfl) rfl fun r hr hl => ?_
    obtain ⟨hu,_,_,hd⟩ := hok.ready r hr hl
    rw [hd]
    exact narrowed_start hu
  | false =>
    simp only [consistent,Bool.and_eq_true,decide_eq_true_eq,List.all_eq_true,
      Bool.or_eq_true,List.contains_iff_mem] at hc
    obtain ⟨⟨hnodup,hin⟩,hall⟩ := hc
    by_cases hnil : i.answer.web = [] ∧ i.answer.groups = []
    · have hA : PushJob.advance i.answer p s.job.row (.selectPushers job d) =
          (s.job.row,.finish job d none i.answer.second) := by
        rw [advance_runs hf]
        simp only [PushJob.statement,if_pos hnil]
      refine own_reads hk (by rw [hA]) rfl (by rw [hA]; trivial) fun r hr hl => ?_
      obtain ⟨hu,_,hlists,hd⟩ := hok.ready r hr hl
      rw [hA]
      refine ⟨fun hw id hid => ?_,hd ▸ narrowed_start hu⟩
      by_contra hno
      rw [not_or] at hno
      rcases hall id (hlists.complete hw id hid hno.1 hno.2) with hrem | hload
      · exact hno.2 hrem
      · rw [hnil.1,hnil.2] at hload
        cases hload
    · have hA : PushJob.advance i.answer p s.job.row (.selectPushers job d) =
          (s.job.row,.unreadCount job d i.answer.web i.answer.groups) := by
        rw [advance_runs hf]
        simp only [PushJob.statement,if_neg hnil]
      refine own_reads hk (by rw [hA]) rfl (by rw [hA]; trivial) fun r hr hl => ?_
      obtain ⟨hu,hp,hlists,hd⟩ := hok.ready r hr hl
      rw [hA]
      exact ⟨hu,hp,hlists,hd,hnodup,fun id hid => (hin id hid).1,hall⟩

theorem own_unreadCount {job : JobRow} {d : Dispatch} {web : List String}
    {groups : List (List String)} (hk : Kept s) (hok : Ok p s (.unreadCount job d web groups)) :
    Own i p s (.unreadCount job d web groups) := by
  cases hf : i.answer.fails with
  | true =>
    refine own_caught job d hk (by rw [advance_fails hf]; rfl) rfl fun r hr hl => ?_
    obtain ⟨hu,_,_,hd,_⟩ := hok.ready r hr hl
    rw [hd]
    exact narrowed_start hu
  | false =>
    let loaded : Dispatch := { d with settled := d.dispatchIds.filter (· ∉ web ++ groups.flatten) }
    have hA : PushJob.advance i.answer p s.job.row (.unreadCount job d web groups) =
        (s.job.row,if web = [] then PushJob.nextCall i.answer job loaded groups
          else .buildContent job loaded web groups) := by
      rw [advance_runs hf]
      rfl
    have hgathered : ∀ r, s.job.row = some r → leased p r = true →
        r.pendingPusherIds ≠ none ∧ Gathered s loaded (web ++ groups.flatten) := by
      intro r hr hl
      obtain ⟨hu,hp,hlists,hd,hnodup,hin,hall⟩ := hok.ready r hr hl
      have hmem : ∀ id, id ∈ loaded.settled ↔ id ∈ d.dispatchIds ∧ id ∉ web ++ groups.flatten := by
        intro id
        change id ∈ d.dispatchIds.filter _ ↔ _
        rw [List.mem_filter,decide_eq_true_eq]
      have hretry : loaded.retryIds = [] := by
        change d.retryIds = []
        rw [hd]
        rfl
      refine ⟨hp,hlists,fun id hid => ?_,fun id hid => ?_,fun id hid ha => ?_,fun id hid => ?_,
        hnodup,fun id hid => ⟨hin id hid,fun hs => ((hmem id).mp hs).2 hid,fun hs => ?_⟩,
        fun id hid => ?_⟩
      · rw [hu] at hid
        cases hid
      · obtain ⟨hdispatch,hno⟩ := (hmem id).mp hid
        exact Or.inr ((hall id hdispatch).resolve_right hno)
      · have hun := hlists.answered id hid ha
        rw [hu] at hun
        cases hun
      · rw [hretry] at hid
        cases hid
      · rw [hretry] at hs
        cases hs
      · by_cases hload : id ∈ web ++ groups.flatten
        · exact Or.inr (Or.inr hload)
        · exact Or.inl ((hmem id).mpr ⟨hid,hload⟩)
    by_cases hweb : web = []
    · rw [if_pos hweb] at hA
      refine own_reads hk (by rw [hA]) rfl (by rw [hA]; exact aware_nextCall groups)
        fun r hr hl => ?_
      obtain ⟨hp,hg⟩ := hgathered r hr hl
      rw [hA]
      rw [hweb] at hg
      exact ready_nextCall hp hg
    · rw [if_neg hweb] at hA
      refine own_reads hk (by rw [hA]) rfl (by rw [hA]; trivial) fun r hr hl => ?_
      rw [hA]
      exact hgathered r hr hl

theorem own_buildContent {job : JobRow} {d : Dispatch} {web : List String}
    {groups : List (List String)} (hk : Kept s) (hok : Ok p s (.buildContent job d web groups)) :
    Own i p s (.buildContent job d web groups) := by
  cases hf : i.answer.fails with
  | true =>
    have hA : PushJob.advance i.answer p s.job.row (.buildContent job d web groups) =
        (s.job.row,PushJob.nextCall i.answer job
          (d.record web (PushJob.thrown web i.answer.error)) groups) := advance_fails hf
    refine own_reads hk (by rw [hA]) rfl (by rw [hA]; exact aware_nextCall groups) fun r hr hl => ?_
    obtain ⟨hp,hg⟩ := hok.ready r hr hl
    rw [hA]
    exact ready_nextCall hp hg.thrown
  | false =>
    have hA : PushJob.advance i.answer p s.job.row (.buildContent job d web groups) =
        (s.job.row,PushJob.nextCall i.answer job d (web.map ([·]) ++ groups)) := advance_runs hf
    refine own_reads hk (by rw [hA]) rfl (by rw [hA]; exact aware_nextCall _) fun r hr hl => ?_
    obtain ⟨hp,hg⟩ := hok.ready r hr hl
    rw [hA]
    refine ready_nextCall hp ?_
    rw [flatten_web]
    exact hg

theorem own_refresh {job : JobRow} {d : Dispatch} {ids : List String} {rest : List (List String)}
    {n : Nat} (hk : Kept s) (hok : Ok p s (.refresh job d ids rest n)) :
    Own i p s (.refresh job d ids rest n) := by
  cases hf : i.answer.fails with
  | true =>
    exact own_caught job d hk (by rw [advance_fails hf]; rfl) rfl
      fun r hr hl => (hok.ready r hr hl).2.narrowed
  | false =>
    cases hhit : Statement.hits (leased p) s.job.row with
    | false =>
      have hA : PushJob.advance i.answer p s.job.row (.refresh job d ids rest n) =
          (s.job.row,.done) := by
        rw [advance_runs hf]
        change (Statement.update _ _ _,if _ then _ else _) = _
        rw [hhit,Statement.update_of_not_hits hhit]
        rfl
      exact own_done hk hA rfl
    | true =>
      obtain ⟨r,hr,hl⟩ := Statement.hits_iff.mp hhit
      have hA : PushJob.advance i.answer p s.job.row (.refresh job d ids rest n) =
          (some (PushJob.refresh n r),.send job d ids rest) := by
        rw [advance_runs hf]
        change (Statement.update _ _ _,if _ then _ else _) = _
        rw [hhit,hr,Statement.update_some,if_pos hl]
        rfl
      obtain ⟨hp,hg⟩ := hok.ready r hr hl
      have hstatus := (PushJob.leased_iff.mp hl).1
      have hfresh : ∀ a ∈ s.rows, a.updatedAt ≠ n := fun a ha => hk.fresh hok.knows.2 ha
      refine own_writes hk hA rfl ((hk.row_listed hr).of_pending rfl)
        (fun a ha _ ht => absurd ht (hfresh a ha)) (fun a ha hpa => hk.persisted a ha hpa r hr)
        (fun h => absurd hstatus h) (fun h => ?_) (fun h => ?_)
        (fun _ _ _ => trivial) fun _ s' hframe hrows => ⟨hp,hg.frame hframe,fun a ha _ ht => ?_⟩
      · exact absurd (hstatus.symm.trans h) (by simp)
      · exact absurd (hstatus.symm.trans h) (by simp)
      · rw [hrows] at ha
        rcases List.mem_cons.mp ha with rfl | ha
        · exact hp
        · exact absurd ht (hfresh a ha)

def outcome (i : Input) (ids : List String) : GatewayResult :=
  if i.answer.fails then PushJob.thrown ids i.answer.error else i.answer.result

theorem consistent_outcome {job : JobRow} {d : Dispatch} {ids : List String}
    {rest : List (List String)} (hc : consistent i s (.send job d ids rest) = true)
    (hnodup : ids.Nodup) (hm : i.call.delivered.result = none → i.call.delivered.answered = []) :
    (∀ id ∈ i.call.delivered.sent, id ∈ ids) ∧ (∀ id ∈ i.call.delivered.answered, id ∈ ids) ∧
      ∀ id, id ∈ (outcome i ids).retryIds ↔ id ∈ ids ∧ id ∉ i.call.delivered.answered := by
  simp only [consistent,Bool.and_eq_true,decide_eq_true_eq] at hc
  obtain ⟨rfl,hresult⟩ := hc
  have hfits := fits_delivered hnodup
  refine ⟨hfits.sent,hfits.answered,fun id => ?_⟩
  unfold outcome
  cases hr : i.call.delivered.result with
  | none =>
    rw [hr] at hresult
    rw [if_pos hresult,hm hr]
    exact ⟨fun hid => ⟨hid,fun hno => (by cases hno)⟩,fun hid => hid.1⟩
  | some result =>
    simp only [hr,Bool.and_eq_true,Bool.not_eq_true',decide_eq_true_eq] at hresult
    rw [hresult.1,hresult.2]
    exact hfits.retry result hr id

theorem own_send {job : JobRow} {d : Dispatch} {ids : List String} {rest : List (List String)}
    (hk : Kept s) (hok : Ok p s (.send job d ids rest))
    (hc : consistent i s (.send job d ids rest) = true)
    (hhit : Statement.hits (leased p) s.job.row = true)
    (hm : i.call.delivered.result = none → i.call.delivered.answered = []) :
    Own i p s (.send job d ids rest) := by
  obtain ⟨r,hr,hl⟩ := Statement.hits_iff.mp hhit
  obtain ⟨hp,hg,hpending⟩ := hok.ready r hr hl
  have hnodup : ids.Nodup := (List.nodup_append.mp hg.nodup).1
  obtain ⟨hsent,hanswered,hretry⟩ := consistent_outcome hc hnodup hm
  have hA : PushJob.advance i.answer p s.job.row (.send job d ids rest) =
      (s.job.row,PushJob.nextCall i.answer job (d.record ids (outcome i ids)) rest) := by
    unfold outcome
    cases hf : i.answer.fails with
    | true => exact advance_fails hf
    | false => exact advance_runs hf
  have honce : i.call.delivered.sent.filter (· ∈ s.answered) = [] := by
    rw [List.filter_eq_nil_iff]
    intro id hid hin
    exact hg.unanswered (List.mem_append_left _ (hsent id hid)) (of_decide_eq_true hin)
  have hjob : (work i p s (.send job d ids rest)).1.job.row = s.job.row := by
    change (PushJob.advance i.answer p s.job.row _).1 = _
    rw [hA]
  have hgathered : Gathered (work i p s (.send job d ids rest)).1
      (d.record ids (outcome i ids)) rest.flatten :=
    (hg.record hanswered hretry).frame ⟨rfl,rfl,rfl,List.Subset.refl _,id⟩
  have hstatus := (PushJob.leased_iff.mp hl).1
  refine ⟨hk.still hjob (fun v hv => List.mem_append_right _ hv) ?_ ?_
    (fun r' hr' a ha hs hu hlisted => ?_) fun r' hr' hs => ?_,?_,fun r' hr' hl' => ?_⟩
  · rw [← hjob]
    rfl
  · change i.call.delivered.sent.filter (· ∈ s.answered) ++ s.repeated = []
    rw [honce,hk.once]
    rfl
  · obtain rfl := Option.some.inj (hr.symm.trans hr')
    refine ⟨fun hnone => absurd hnone (hpending a ha hs hu),fun ids' hids => ?_⟩
    have hlists := hlisted.some ids' hids
    refine ⟨hlists.owned,fun id hid ha' => ?_,fun hw id hid hno hrem => ?_⟩
    · rcases List.mem_append.mp ha' with hnew | hold
      · exact List.mem_append_left _ hnew
      · exact List.mem_append_right _ (hlists.answered id hid hold)
    · exact hlists.complete hw id hid (fun hin => hno (List.mem_append_right _ hin)) hrem
  · exact absurd (Option.some.inj (hr.symm.trans hr') ▸ hstatus) hs
  · change Aware _ (PushJob.advance i.answer p s.job.row _).2
    rw [hA]
    exact aware_nextCall rest
  · obtain rfl := Option.some.inj (hr.symm.trans (hjob.symm.trans hr'))
    change Ready _ _ (PushJob.advance i.answer p s.job.row _).2
    rw [hA]
    exact ready_nextCall hp hgathered

def saved (s : Store) : Store := { s with unsaved := [] }

theorem listed_saved {ids : List String} (h : Lists s ids) (hno : ∀ id ∈ ids, id ∉ s.answered)
    (hr : r.pendingPusherIds = some ids) : Listed (saved s) r := by
  refine ⟨fun hnone => ?_,fun ids' hids => ?_⟩
  · rw [hr] at hnone
    cases hnone
  · cases hr.symm.trans hids
    exact ⟨h.owned,fun id hid ha => absurd ha (hno id hid),h.complete⟩

theorem exhausted_waits (attempts : Nat) :
    PushJob.exhausted attempts .retryWait ≠ .processing ∧
      PushJob.exhausted attempts .retryWait ≠ .delivered ∧
      (PushJob.exhausted attempts .retryWait = .failed →
        maxNotificationPushAttempts ≤ attempts) := by
  unfold PushJob.exhausted
  split
  · rename_i h
    exact ⟨fun h => (by cases h),fun h => (by cases h),fun _ => h⟩
  · exact ⟨fun h => (by cases h),fun h => (by cases h),fun h => (by cases h)⟩

theorem own_saves {r' : JobRow} {n : Nat} (hk : Kept s) (hfresh : PushJob.Fresh p n s.job)
    (hA : PushJob.advance i.answer p s.job.row x = (some r',.done)) (hn : r'.updatedAt = n)
    (hrec : record i p s x = saved s) (hlisted : Listed (saved s) r')
    (hpersisted : ∀ a ∈ s.rows, a.pendingPusherIds ≠ none → r'.pendingPusherIds ≠ none)
    (hdelivered : r'.status = .delivered → r'.pendingPusherIds = some [])
    (hfailed : r'.status = .failed → maxNotificationPushAttempts ≤ r'.attempts) : Own i p s x := by
  refine own_writes hk hA ?_ ?_ (fun a ha _ hu => absurd (hu.trans hn) (hk.fresh hfresh ha))
    hpersisted (fun _ => ?_) hdelivered hfailed (fun _ _ _ => trivial) fun _ _ _ _ => trivial
  all_goals rw [hrec]
  · rfl
  · exact hlisted
  · rfl

theorem own_finish {job : JobRow} {d : Dispatch} {e : Option String} {n : Nat} (hk : Kept s)
    (hok : Ok p s (.finish job d e n)) : Own i p s (.finish job d e n) := by
  have hrec : record i p s (.finish job d e n) =
      if !i.answer.fails && Statement.hits (leased p) s.job.row then saved s else s := rfl
  cases hf : i.answer.fails with
  | true =>
    refine own_caught job d hk (by rw [advance_fails hf]; rfl) ?_
      fun r hr hl => (hok.ready r hr hl).2
    rw [hrec,hf]
    rfl
  | false =>
    cases hhit : Statement.hits (leased p) s.job.row with
    | false =>
      have hA : PushJob.advance i.answer p s.job.row (.finish job d e n) = (s.job.row,.done) := by
        rw [advance_runs hf]
        change (Statement.update _ _ _,_) = _
        rw [Statement.update_of_not_hits hhit]
      refine own_done hk hA ?_
      rw [hrec,hhit,Bool.and_false]
      rfl
    | true =>
      obtain ⟨r,hr,hl⟩ := Statement.hits_iff.mp hhit
      have hA : PushJob.advance i.answer p s.job.row (.finish job d e n) =
          (some (PushJob.finish e n r),.done) := by
        rw [advance_runs hf]
        change (Statement.update _ _ _,_) = _
        rw [hr,Statement.update_some,if_pos hl]
      have hclosed := (hok.ready r hr hl).1
      refine own_saves hk hok.knows.2 hA rfl ?_ (@listed_saved _ _ [] ⟨?_,?_,?_⟩ ?_ rfl)
        (fun _ _ _ h => (by cases h)) (fun _ => rfl) (fun h => (by cases h))
      · rw [hrec,hf,hhit]
        rfl
      · intro id hid
        cases hid
      · intro id hid
        cases hid
      · intro hw id hid hno hrem
        exact absurd (hclosed hw id hid) (not_or.mpr ⟨hno,hrem⟩)
      · intro id hid
        cases hid

theorem own_retries {job : JobRow} {remaining : Option (List String)} {delay readAt n : Nat}
    {e : String} (hk : Kept s) (hfresh : PushJob.Fresh p n s.job)
    (hhit : Statement.hits (leased p) s.job.row = true)
    (hn : ∀ r, s.job.row = some r → leased p r = true → Narrowed s remaining)
    (hA : ∀ r, s.job.row = some r → leased p r = true →
      PushJob.advance i.answer p s.job.row x =
        (some (PushJob.retry (job.attempts + 1) delay remaining e readAt n r),.done))
    (hrec : record i p s x = saved s) : Own i p s x := by
  obtain ⟨r,hr,hl⟩ := Statement.hits_iff.mp hhit
  obtain ⟨_,hdelivered,hfailed⟩ := exhausted_waits (job.attempts + 1)
  have hnarrowed := hn r hr hl
  refine own_saves hk hfresh (hA r hr hl) rfl hrec ?_ (fun a ha hp hnone => ?_)
    (fun h => absurd h hdelivered) hfailed
  · cases hrem : remaining with
    | none =>
      have hsame : saved s = s := by
        unfold saved
        rw [← hnarrowed.none hrem]
      rw [hsame]
      exact (hk.row_listed hr).of_pending rfl
    | some ids =>
      obtain ⟨hlists,hno⟩ := hnarrowed.some ids hrem
      exact listed_saved hlists hno rfl
  · rw [PushJob.retry,Option.or_eq_none_iff] at hnone
    exact hk.persisted a ha hp r hr hnone.2

theorem own_retry {job : JobRow} {d : Dispatch} {readAt n : Nat} (hk : Kept s)
    (hok : Ok p s (.retry job d readAt n)) : Own i p s (.retry job d readAt n) := by
  have hrec : record i p s (.retry job d readAt n) =
      if !i.answer.fails && Statement.hits (leased p) s.job.row then saved s else s := rfl
  cases hf : i.answer.fails with
  | true =>
    refine own_caught job d hk (by rw [advance_fails hf]; rfl) ?_
      fun r hr hl => Gathered.narrowed (hok.ready r hr hl)
    rw [hrec,hf]
    rfl
  | false =>
    cases hhit : Statement.hits (leased p) s.job.row with
    | false =>
      have hA : PushJob.advance i.answer p s.job.row (.retry job d readAt n) =
          (s.job.row,.done) := by
        rw [advance_runs hf]
        change (Statement.update _ _ _,_) = _
        rw [Statement.update_of_not_hits hhit]
      refine own_done hk hA ?_
      rw [hrec,hhit,Bool.and_false]
      rfl
    | true =>
      have hA : ∀ r, s.job.row = some r → leased p r = true →
          PushJob.advance i.answer p s.job.row (.retry job d readAt n) =
            (some (PushJob.retry (job.attempts + 1)
              (max d.retryAfterSeconds (PushJob.backoff (job.attempts + 1)))
              (some d.retryIds.eraseDups) (PushJob.retryError d) readAt n r),.done) := by
        intro r hr hl
        rw [advance_runs hf]
        change (Statement.update _ _ _,_) = _
        rw [hr,Statement.update_some,if_pos hl]
      refine own_retries hk hok.knows.2 hhit (fun r hr hl => ?_) hA ?_
      · refine ⟨fun h => (by cases h),fun ids h => ?_⟩
        exact Option.some.inj h ▸ Gathered.again (hok.ready r hr hl)
      · rw [hrec,hf,hhit]
        rfl

theorem own_catch {job : JobRow} {remaining : Option (List String)} {e : String} {readAt n : Nat}
    (hk : Kept s) (hok : Ok p s (.caught job remaining e readAt n)) :
    Own i p s (.caught job remaining e readAt n) := by
  have hrec : record i p s (.caught job remaining e readAt n) =
      if !i.answer.fails && Statement.hits (leased p) s.job.row then saved s else s := rfl
  cases hf : i.answer.fails with
  | true =>
    refine own_done hk (advance_fails hf) ?_
    rw [hrec,hf]
    rfl
  | false =>
    cases hhit : Statement.hits (leased p) s.job.row with
    | false =>
      have hA : PushJob.advance i.answer p s.job.row (.caught job remaining e readAt n) =
          (s.job.row,.done) := by
        rw [advance_runs hf]
        change (Statement.update _ _ _,_) = _
        rw [Statement.update_of_not_hits hhit]
      refine own_done hk hA ?_
      rw [hrec,hhit,Bool.and_false]
      rfl
    | true =>
      have hA : ∀ r, s.job.row = some r → leased p r = true →
          PushJob.advance i.answer p s.job.row (.caught job remaining e readAt n) =
            (some (PushJob.retry (job.attempts + 1) (PushJob.backoff (job.attempts + 1)) remaining
              (PushJob.clipped e) readAt n r),.done) := by
        intro r hr hl
        rw [advance_runs hf]
        change (Statement.update _ _ _,_) = _
        rw [hr,Statement.update_some,if_pos hl]
      refine own_retries hk hok.knows.2 hhit (fun r hr hl => hok.ready r hr hl) hA ?_
      rw [hrec,hf,hhit]
      rfl

theorem own_recover {n : Nat} (hk : Kept s) (hok : Ok p s (.recover n))
    (hm : Statement.hits recoverable s.job.row = true → s.unsaved = []) :
    Own i p s (.recover n) := by
  cases hf : i.answer.fails with
  | true =>
    exact own_done hk (advance_fails hf) rfl
  | false =>
    cases hhit : Statement.hits recoverable s.job.row with
    | false =>
      have hA : PushJob.advance i.answer p s.job.row (.recover n) = (s.job.row,.done) := by
        rw [advance_runs hf]
        change (Statement.update _ _ _,_) = _
        rw [Statement.update_of_not_hits hhit]
      exact own_done hk hA rfl
    | true =>
      obtain ⟨r,hr,hc⟩ := Statement.hits_iff.mp hhit
      have hA : PushJob.advance i.answer p s.job.row (.recover n) =
          (some (PushJob.recover n r),.done) := by
        rw [advance_runs hf]
        change (Statement.update _ _ _,_) = _
        rw [hr,Statement.update_some,if_pos hc]
      obtain ⟨_,hdelivered,hfailed⟩ := exhausted_waits (r.attempts + 1)
      have hsame : saved s = s := by
        unfold saved
        rw [← hm hhit]
      refine own_saves hk hok.knows hA rfl hsame.symm ?_ (fun a ha hp => hk.persisted a ha hp r hr)
        (fun h => absurd h hdelivered) hfailed
      rw [hsame]
      exact (hk.row_listed hr).of_pending rfl

theorem own_reclaimStale {n cutoffAt : Nat} (hk : Kept s) (hok : Ok p s (.reclaimStale n cutoffAt))
    (hm : Statement.hits (stale cutoffAt) s.job.row = true → s.unsaved = []) :
    Own i p s (.reclaimStale n cutoffAt) := by
  cases hf : i.answer.fails with
  | true =>
    exact own_done hk (advance_fails hf) rfl
  | false =>
    cases hhit : Statement.hits (stale cutoffAt) s.job.row with
    | false =>
      have hA : PushJob.advance i.answer p s.job.row (.reclaimStale n cutoffAt) =
          (s.job.row,.selectDue n) := by
        rw [advance_runs hf]
        change (Statement.update _ _ _,_) = _
        rw [Statement.update_of_not_hits hhit]
      exact own_free hk hA rfl trivial fun _ => trivial
    | true =>
      obtain ⟨r,hr,hc⟩ := Statement.hits_iff.mp hhit
      have hA : PushJob.advance i.answer p s.job.row (.reclaimStale n cutoffAt) =
          (some (PushJob.reclaimStale n r),.selectDue n) := by
        rw [advance_runs hf]
        change (Statement.update _ _ _,_) = _
        rw [hr,Statement.update_some,if_pos hc]
      have hexhausted : PushJob.exhausted (r.attempts + 1) .pending ≠ .delivered ∧
          (PushJob.exhausted (r.attempts + 1) .pending = .failed →
            maxNotificationPushAttempts ≤ r.attempts + 1) := by
        unfold PushJob.exhausted
        split
        · rename_i h
          exact ⟨fun h => (by cases h),fun _ => h⟩
        · exact ⟨fun h => (by cases h),fun h => (by cases h)⟩
      exact own_writes hk hA rfl ((hk.row_listed hr).of_pending rfl)
        (fun a ha _ hu => absurd hu (hk.fresh hok.knows ha))
        (fun a ha hp => hk.persisted a ha hp r hr) (fun _ => hm hhit)
        (fun h => absurd h hexhausted.1) hexhausted.2 (fun _ _ _ => trivial) fun _ _ _ _ => trivial

theorem own_mark {n : Nat} (hk : Kept s) (hok : Ok p s (.mark n)) : Own i p s (.mark n) := by
  cases hf : i.answer.fails with
  | true =>
    exact own_done hk (advance_fails hf) rfl
  | false =>
    cases hhit : Statement.hits PushJob.waiting s.job.row with
    | false =>
      have hA : PushJob.advance i.answer p s.job.row (.mark n) = (s.job.row,.done) := by
        rw [advance_runs hf]
        change (Statement.update _ _ _,_) = _
        rw [Statement.update_of_not_hits hhit]
      exact own_done hk hA rfl
    | true =>
      obtain ⟨r,hr,hc⟩ := Statement.hits_iff.mp hhit
      have hA : PushJob.advance i.answer p s.job.row (.mark n) =
          (some (PushJob.markQueued n r),.done) := by
        rw [advance_runs hf]
        change (Statement.update _ _ _,_) = _
        rw [hr,Statement.update_some,if_pos hc]
      have hstatus : r.status ≠ .processing := by
        intro hp
        simp [PushJob.waiting,hp] at hc
      refine own_writes hk hA rfl ((hk.row_listed hr).of_pending rfl) (fun a ha hs hu => ?_)
        (fun a ha hp => hk.persisted a ha hp r hr) (fun _ => hk.idle r hr hstatus)
        (fun h => (by cases h)) (fun h => (by cases h)) (fun _ _ _ => trivial)
        fun _ _ _ _ => trivial
      exact absurd hs (hok.knows.2 _ (hk.versions a ha) hu)

theorem own_work (hk : Kept s) (hok : Ok p s x) (ha : allowed i s x = true)
    (hm : Allows i p s x) : Own i p s x := by
  have hc : consistent i s x = true := (Bool.and_eq_true_iff.mp ha).2
  cases x with
  | select => exact own_select hk
  | reclaim job n => exact own_reclaim hk hok hm
  | claim job n => exact own_claim hk hok
  | loadPushEvent job n => exact own_loadPushEvent hk hok
  | selectPending job n => exact own_selectPending hk hok hc hm
  | persistPending job n ids => exact own_persistPending hk hok
  | selectPushers job d => exact own_selectPushers hk hok hc
  | unreadCount job d web groups => exact own_unreadCount hk hok
  | buildContent job d web groups => exact own_buildContent hk hok
  | refresh job d ids rest n => exact own_refresh hk hok
  | send job d ids rest => exact own_send hk hok hc hm.1 hm.2
  | finish job d e n => exact own_finish hk hok
  | retry job d readAt n => exact own_retry hk hok
  | caught job remaining e readAt n => exact own_catch hk hok
  | recover n => exact own_recover hk hok hm
  | reclaimStale n cutoffAt => exact own_reclaimStale hk hok hm
  | mark n => exact own_mark hk hok
  | recoverDeadLettered | sweep | selectDue n | sendBatch n | done =>
    cases hf : i.answer.fails with
    | true => exact own_done hk (advance_fails hf) rfl
    | false =>
      refine own_free hk (advance_runs hf) rfl ?_ fun r => ?_
      all_goals first | trivial | (split <;> trivial)

end steps

end Yurucommu.PushSettled
