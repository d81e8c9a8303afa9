import Yurucommu.FanoutSteps

/-!
A fan-out that is completed has covered its whole audience, and nobody else.
-/

set_option autoImplicit false

namespace Yurucommu.Fanout

open Delivery

variable {c : Site} {f : DeliveryFanoutIntent} {author r : String} {g : CommunityStage}
  {s t : Store} {x : Worker} {i : Answer} {run : PageRun}

def DeliveryFanoutIntent.isCommunity : DeliveryFanoutIntent → Bool
  | .followers _ _ => false
  | .community _ _ _ => true

/-- `r` is in the audience of the stage: a local member, a remote member or a remote
accepted follower. -/
structure InStage (c : Site) (f : DeliveryFanoutIntent) (author : String) (g : CommunityStage)
    (r : String) (s : Store) : Prop where
  kind : g ≠ .remoteFollowers → f.isCommunity = true
  row : r ∈ s.stageRows f.targetApId g
  isLocal : c.isLocal r = true ↔ g = .localMembers
  author : f.isCommunity = true → r ≠ author

def Reachable (g : CommunityStage) (r : String) (s : Store) : Prop :=
  g ≠ .localMembers → s.blocked r = false ∧ r ∉ s.tombstones

def CommunityStage.rank : CommunityStage → Nat
  | .localMembers => 0
  | .remoteMembers => 1
  | .remoteFollowers => 2

def Past (g stage : CommunityStage) (cursor : Option String) (r : String) : Prop :=
  g.rank < stage.rank ∨ g = stage ∧ Keyset.Behind cursor r

/-- So has a sweep that is done with the page. -/
def PageRun.Past (run : PageRun) (g : CommunityStage) (r : String) : Prop :=
  g.rank < run.message.stage.rank ∨ g = run.message.stage ∧
    (run.ids.length ≠ fanoutFollowerPageSize ∨ Keyset.Behind run.ids.getLast? r)

def Worker.Past (g : CommunityStage) (r : String) : Worker → Prop
  | .idle | .discard _ | .reset _ => False
  | .fanoutState m | .activityExists m | .requireQueue m _ | .sendContinuation m =>
    Fanout.Past g m.stage m.cursor r
  | .readPage m _ cursor _ => Fanout.Past g m.stage cursor r
  | .insertInbox run | .filterBlocked run | .loadActorCache run _ _ _ _ | .upsertJob run _ _ _
  | .selectJob run _ _ _ _ | .persistFirst run _ _ | .sendRequests run _ _ | .persist run _
  | .selectDue run _ | .sendDue run _ _ | .markQueued run _ _ => run.Past g r
  | .complete _ => True

def Worker.Pending (c : Site) (g : CommunityStage) (r : String) : Worker → Prop
  | .insertInbox run => g = .localMembers ∧ r ∈ run.localRecipients c
  | .filterBlocked run => g ≠ .localMembers ∧ r ∈ run.remoteRecipients c
  | .loadActorCache _ _ allowed _ _ => g ≠ .localMembers ∧ r ∈ allowed
  | .upsertJob _ groups unknown _ | .selectJob _ _ groups unknown _ =>
    g ≠ .localMembers ∧ planned groups unknown r
  | .persistFirst _ unknown _ | .sendRequests _ unknown _ | .persist _ unknown =>
    g ≠ .localMembers ∧ r ∈ unknown
  | _ => False

def Worker.Writes (c : Site) (g : CommunityStage) (r : String) (s : Store) : Worker → Prop
  | .insertInbox run => g = .localMembers ∧ r ∈ run.localRecipients c
  | .upsertJob _ (group :: _) _ _ => g ≠ .localMembers ∧ r ∈ group.2 ∧ r ∉ s.tombstones
  | .persistFirst _ unknown _ | .persist _ unknown =>
    g ≠ .localMembers ∧ r ∈ unknown ∧ r ∉ s.tombstones
  | _ => False

section statements

theorem covered_insertInbox {activityId : String} {actors : List String}
    (ha : activityId = f.activityId) :
    Covered f g r (insertInbox activityId actors s) ↔
      Covered f g r s ∨ g = .localMembers ∧ r ∈ actors := by
  cases g with
  | localMembers =>
    rw [Covered,hasInbox_insertInbox]
    simp [Covered,ha]
  | remoteMembers | remoteFollowers => simp [Covered,Delivered,insertInbox]

theorem covered_upsert {endpoint activityId : String} {recipients : List String} {now : Nat}
    (ha : activityId = f.remoteActivityId) :
    Covered f g r (upsertDeliveryJob ⟨activityId,endpoint⟩ recipients now s) ↔
      Covered f g r s ∨ g ≠ .localMembers ∧ r ∈ recipients ∧ r ∉ s.tombstones := by
  cases g with
  | localMembers =>
    have hinbox : (upsertDeliveryJob ⟨activityId,endpoint⟩ recipients now s).inbox = s.inbox := by
      unfold upsertDeliveryJob
      split <;> rfl
    simp [Covered,HasInbox,hinbox]
  | remoteMembers | remoteFollowers =>
    rw [Covered,delivered_upsert ha]
    simp [Covered]

theorem covered_persist {activityId : String} {recipients : List String} {now : Nat}
    (ha : activityId = f.remoteActivityId) :
    Covered f g r (persistDeliveryResolutionJobs activityId recipients now s) ↔
      Covered f g r s ∨ g ≠ .localMembers ∧ r ∈ recipients ∧ r ∉ s.tombstones := by
  cases g with
  | localMembers => simp [Covered,HasInbox,persistDeliveryResolutionJobs]
  | remoteMembers | remoteFollowers =>
    rw [Covered,delivered_persist ha]
    simp [Covered]

theorem covered_markQueued {due : List (ResolutionId × Nat)} :
    Covered f g r (markQueued due s) ↔ Covered f g r s := by
  cases g with
  | localMembers => rfl
  | remoteMembers | remoteFollowers => exact delivered_markQueued

theorem covered_congr (hi : t.inbox = s.inbox) (hj : t.jobs = s.jobs)
    (hr : t.resolutions = s.resolutions) : Covered f g r t ↔ Covered f g r s := by
  simp only [Covered,HasInbox,Delivered,hi,hj,hr]

theorem or_of_none {p q : Prop} (h : p ↔ q) : p ↔ q ∨ False := by
  rw [or_false]
  exact h

/-- Who is covered after a step: whoever was, and whom the statement writes a row for. -/
theorem covered_work (hx : x.Of f author) :
    Covered f g r (work c i s x).1 ↔ Covered f g r s ∨ x.Writes c g r s := by
  cases x with
  | insertInbox run => exact covered_insertInbox hx.1.activityId
  | upsertJob run groups unknown requests =>
    cases groups with
    | nil => simp [work,Worker.Writes]
    | cons => exact covered_upsert hx.1.remoteActivityId
  | persistFirst run unknown requests => exact covered_persist hx.1.remoteActivityId
  | persist run unknown => exact covered_persist hx.1.remoteActivityId
  | markQueued run due todo => exact or_of_none covered_markQueued
  | sendRequests run unknown requests =>
    cases requests <;> exact or_of_none (covered_congr rfl rfl rfl)
  | loadActorCache run nowMs allowed todo rows =>
    cases todo <;> exact or_of_none (covered_congr rfl rfl rfl)
  | selectDue run todo => cases todo <;> exact or_of_none (covered_congr rfl rfl rfl)
  | fanoutState | activityExists | requireQueue =>
    refine or_of_none ?_
    simp only [work]
    split <;> rfl
  | idle | discard | reset | readPage | filterBlocked | selectJob | sendDue | sendContinuation
  | complete => exact or_of_none (covered_congr rfl rfl rfl)

end statements

section next

theorem behind_of_truthy {cursor : Option String} (h : Keyset.Behind (truthy cursor) r) :
    Keyset.Behind cursor r := by
  obtain ⟨k,hk,hle⟩ := h
  exact ⟨k,(Option.filter_eq_some_iff.mp hk).1,hle⟩

theorem past_afterPage (hk : g ≠ .remoteFollowers → f.isCommunity = true)
    (hm : run.message.Of f) (h : (afterPage run).Past g r) : run.Past g r := by
  obtain ⟨stage,cursor,hm⟩ := hm
  unfold afterPage at h
  cases f with
  | followers activityId target =>
    have hg : g = .remoteFollowers := by
      by_contra hne
      cases hk hne
    subst hg
    rw [hm] at h
    refine .inr ⟨by rw [hm]; rfl,?_⟩
    simp only [DeliveryFanoutIntent.message] at h
    split at h
    · rename_i hlt
      exact .inl (by omega)
    · split at h
      · exact .inr (h.resolve_left (by simp [FanoutMessage.continuation,FanoutMessage.stage])).2
      · exact .inr (h.resolve_left (by simp [FanoutMessage.stage])).2
  | community activityId target announce =>
    rw [PageRun.Past,hm]
    rw [hm] at h
    simp only [DeliveryFanoutIntent.message] at h ⊢
    split at h
    · rcases h with h | ⟨h,hb⟩
      · exact .inl h
      · exact .inr ⟨h,.inr (behind_of_truthy hb)⟩
    · rename_i hlen
      generalize (FanoutMessage.community activityId target announce stage cursor).stage = at_ at h ⊢
      cases at_ with
      | localMembers =>
        have hlt : g.rank < 1 := h.resolve_right (by simp [FanoutMessage.continuation,truthy,FanoutMessage.cursor])
        cases g with
        | localMembers => exact .inr ⟨rfl,.inl hlen⟩
        | remoteMembers | remoteFollowers => simp [CommunityStage.rank] at hlt
      | remoteMembers =>
        have hlt : g.rank < 2 := h.resolve_right (by simp [FanoutMessage.continuation,truthy,FanoutMessage.cursor])
        cases g with
        | localMembers => exact .inl (by decide)
        | remoteMembers => exact .inr ⟨rfl,.inl hlen⟩
        | remoteFollowers => simp [CommunityStage.rank] at hlt
      | remoteFollowers =>
        cases g with
        | localMembers | remoteMembers => exact .inl (by decide)
        | remoteFollowers => exact .inr ⟨rfl,.inl hlen⟩

theorem pending_afterPage : ¬(afterPage run).Pending c g r := by
  unfold afterPage
  split
  · split
    · exact not_false
    · split <;> exact not_false
  · split
    · exact not_false
    · split <;> exact not_false

theorem past_withPage (hk : g ≠ .remoteFollowers → f.isCommunity = true)
    (hm : run.message.Of f) (h : (withPage c run).Past g r) : run.Past g r := by
  unfold withPage at h
  split at h
  · split at h
    · exact past_afterPage hk hm h
    · exact h
  · split at h
    · exact past_afterPage hk hm h
    · exact h

theorem past_work (hk : g ≠ .remoteFollowers → f.isCommunity = true) (hx : x.Of f author)
    (hi : x ≠ .idle) (hr : ∀ m a cursor processed, x ≠ .readPage m a cursor processed)
    (h : (work c i s x).2.Past g r) : x.Past g r := by
  cases x with
  | idle => exact absurd rfl hi
  | readPage m a cursor processed => exact absurd rfl (hr m a cursor processed)
  | fanoutState | activityExists | requireQueue =>
    simp only [work] at h
    split at h <;> first | exact h | exact h.elim
  | insertInbox run => exact past_afterPage hk hx.1 h
  | loadActorCache run nowMs allowed todo rows => cases todo <;> exact h
  | upsertJob run groups unknown requests =>
    cases groups with
    | nil =>
      simp only [work,afterJobs] at h
      split at h <;> exact h
    | cons => exact h
  | sendRequests run unknown requests => cases requests <;> exact h
  | selectDue run todo =>
    cases todo with
    | nil => exact past_afterPage hk hx.1 h
    | cons => exact h
  | filterBlocked | selectJob | persistFirst | persist | sendDue | markQueued => exact h
  | complete => trivial
  | discard | reset | sendContinuation => exact h.elim

theorem pending_work (hr : Reachable g r s) (h : x.Pending c g r) :
    x.Writes c g r s ∨ (work c i s x).2.Pending c g r := by
  cases x with
  | insertInbox run => exact .inl h
  | filterBlocked run =>
    refine .inr ⟨h.1,List.mem_filter.mpr ⟨h.2,?_⟩⟩
    rw [(hr h.1).1]
    rfl
  | loadActorCache run nowMs allowed todo rows =>
    cases todo with
    | nil => exact .inr ⟨h.1,planned_iff.mpr h.2⟩
    | cons => exact .inr h
  | upsertJob run groups unknown requests =>
    cases groups with
    | nil =>
      have hu : r ∈ unknown := h.2.resolve_left (by simp)
      simp only [work,afterJobs]
      split <;> exact .inr ⟨h.1,hu⟩
    | cons group groups =>
      rcases h with ⟨hg,⟨group',hmem,hr'⟩ | hu⟩
      · rcases List.mem_cons.mp hmem with rfl | hmem
        · exact .inl ⟨hg,hr',(hr hg).2⟩
        · exact .inr ⟨hg,.inl ⟨group',hmem,hr'⟩⟩
      · exact .inr ⟨hg,.inr hu⟩
  | selectJob | persistFirst => exact .inr h
  | sendRequests run unknown requests => cases requests <;> exact .inr h
  | persist run unknown => exact .inl ⟨h.1,h.2,(hr h.1).2⟩
  | idle | fanoutState | activityExists | discard | requireQueue | reset | readPage | selectDue
  | sendDue | markQueued | sendContinuation | complete => exact h.elim

theorem pending_of_work (hr : ∀ m a cursor processed, x ≠ .readPage m a cursor processed)
    (h : (work c i s x).2.Pending c g r) : x.Pending c g r := by
  cases x with
  | readPage m a cursor processed => exact absurd rfl (hr m a cursor processed)
  | insertInbox run => exact absurd h pending_afterPage
  | filterBlocked run => exact ⟨h.1,(List.mem_filter.mp h.2).1⟩
  | loadActorCache run nowMs allowed todo rows =>
    cases todo with
    | nil => exact ⟨h.1,planned_iff.mp h.2⟩
    | cons => exact h
  | upsertJob run groups unknown requests =>
    cases groups with
    | nil =>
      simp only [work,afterJobs] at h
      split at h <;> exact ⟨h.1,.inr h.2⟩
    | cons group groups =>
      rcases h with ⟨hg,⟨group',hmem,hr'⟩ | hu⟩
      · exact ⟨hg,.inl ⟨group',List.mem_cons_of_mem _ hmem,hr'⟩⟩
      · exact ⟨hg,.inr hu⟩
  | selectJob | persistFirst => exact h
  | sendRequests run unknown requests => cases requests <;> exact h
  | fanoutState | activityExists | requireQueue =>
    simp only [work] at h
    split at h <;> exact h.elim
  | selectDue run todo =>
    cases todo with
    | nil => exact absurd h pending_afterPage
    | cons => exact h.elim
  | idle | discard | reset | persist | sendDue | markQueued | sendContinuation | complete =>
    exact h.elim

theorem writes_pending (h : x.Writes c g r s) : x.Pending c g r := by
  cases x with
  | insertInbox run => exact h
  | upsertJob run groups unknown requests =>
    cases groups with
    | nil => exact h.elim
    | cons group groups => exact ⟨h.1,.inl ⟨group,List.mem_cons_self,h.2.1⟩⟩
  | persistFirst | persist => exact ⟨h.1,h.2.1⟩
  | idle | fanoutState | activityExists | discard | requireQueue | reset | readPage | filterBlocked
  | loadActorCache | selectJob | sendRequests | selectDue | sendDue | markQueued
  | sendContinuation | complete => exact h.elim

theorem mem_localRecipients : r ∈ run.localRecipients c ↔
    r ∈ run.ids ∧ c.isLocal r = true ∧ r ≠ run.author := by
  simp [PageRun.localRecipients]

theorem mem_remoteRecipients (hm : run.message.Of f) : r ∈ run.remoteRecipients c ↔
    r ∈ run.ids ∧ c.isLocal r = false ∧ (f.isCommunity = true → r ≠ run.author) := by
  obtain ⟨stage,cursor,hm⟩ := hm
  unfold PageRun.remoteRecipients
  rw [hm]
  cases f <;> simp [DeliveryFanoutIntent.message,DeliveryFanoutIntent.isCommunity,List.mem_eraseDups]

theorem pending_withPage (hm : run.message.Of f ∧ run.author = author)
    (hin : InStage c f author g r s) (hg : g = run.message.stage) (hr : r ∈ run.ids) :
    (withPage c run).Pending c g r := by
  obtain ⟨hm,rfl⟩ := hm
  unfold withPage
  by_cases hl : run.message.stage = .localMembers
  · have hmem : r ∈ run.localRecipients c := by
      refine mem_localRecipients.mpr ⟨hr,hin.isLocal.mpr (hg.trans hl),hin.author ?_⟩
      exact hin.kind (by rw [hg,hl]; decide)
    rw [if_pos hl,if_neg (List.ne_nil_of_mem hmem)]
    exact ⟨hg.trans hl,hmem⟩
  · have hne : g ≠ .localMembers := by rwa [hg]
    have hmem : r ∈ run.remoteRecipients c := by
      refine (mem_remoteRecipients hm).mpr ⟨hr,?_,hin.author⟩
      exact Bool.eq_false_iff.mpr fun h => hne (hin.isLocal.mp h)
    rw [if_neg hl,if_neg (List.ne_nil_of_mem hmem)]
    exact ⟨hne,hmem⟩

theorem inStage_of_pending (hm : run.message.Of f ∧ run.author = author)
    (hids : ∀ r ∈ run.ids, r ∈ s.stageRows f.targetApId run.message.stage)
    (h : (withPage c run).Pending c g r) :
    (run.message.stage = .localMembers ↔ g = .localMembers) ∧
      InStage c f author run.message.stage r s := by
  obtain ⟨hm,rfl⟩ := hm
  have hcommunity : run.message.stage ≠ .remoteFollowers → f.isCommunity = true := by
    intro hne
    obtain ⟨stage,cursor,heq⟩ := hm
    cases f with
    | followers =>
      rw [heq] at hne
      exact absurd rfl hne
    | community => rfl
  unfold withPage at h
  by_cases hl : run.message.stage = .localMembers
  · rw [if_pos hl] at h
    split at h
    · exact absurd h pending_afterPage
    · obtain ⟨hg,hr⟩ := h
      obtain ⟨hr,hloc,ha⟩ := mem_localRecipients.mp hr
      exact ⟨⟨fun _ => hg,fun _ => hl⟩,hcommunity,hids r hr,⟨fun _ => hl,fun _ => hloc⟩,
        fun _ => ha⟩
  · rw [if_neg hl] at h
    split at h
    · exact absurd h pending_afterPage
    · obtain ⟨hg,hr⟩ := h
      obtain ⟨hr,hloc,ha⟩ := (mem_remoteRecipients hm).mp hr
      refine ⟨⟨fun h => absurd h hl,fun h => absurd h hg⟩,hcommunity,hids r hr,?_,ha⟩
      rw [hloc]
      exact ⟨(fun h => by cases h),fun h => absurd h hl⟩

theorem past_readPage {m : FanoutMessage} {cursor : Option String} (processed : Nat)
    (hm : m.Of f) (hin : InStage c f author g r s)
    (hp : PageRun.Past ⟨m,author,processed,
      Keyset.page fanoutFollowerPageSize cursor (s.stageRows m.targetApId m.stage)⟩ g r) :
    Past g m.stage cursor r ∨ g = m.stage ∧
      r ∈ Keyset.page fanoutFollowerPageSize cursor (s.stageRows m.targetApId m.stage) := by
  rcases hp with hlt | ⟨hg,hp⟩
  · exact .inl (.inl hlt)
  · change g = m.stage at hg
    rcases Keyset.behind_or_ahead cursor r with hb | ha
    · exact .inl (.inr ⟨hg,hb⟩)
    · have hrow : r ∈ s.stageRows m.targetApId m.stage := by
        rw [hm.targetApId,← hg]
        exact hin.row
      refine .inr ⟨hg,?_⟩
      rcases hp with hne | hb
      · exact Keyset.mem_page_of_short (Keyset.length_page_le.lt_of_ne hne) hrow ha
      · exact Keyset.mem_page_of_behind hb hrow ha

end next

section status

variable {intent : DeliveryFanoutIntent} {status : FanoutStatus}

theorem fanouts_set : (setDeliveryFanoutStatus intent status s).fanouts f = s.fanouts f ∨
    s.fanouts f ≠ none ∧ (setDeliveryFanoutStatus intent status s).fanouts f = some status := by
  by_cases h : f = intent
  · subst h
    simp only [setDeliveryFanoutStatus,Function.update_self]
    rcases Statement.update_cases (fun old => !old.terminal) (fun _ => status) (s.fanouts f) with
      heq | ⟨old,hold,_,heq⟩
    · exact .inl heq
    · exact .inr ⟨by simp [hold],heq⟩
  · exact .inl (Function.update_of_ne h _ _)

theorem fanouts_work : (work c i s x).1.fanouts f = s.fanouts f ∨
    s.fanouts f ≠ none ∧ ∃ status, (work c i s x).1.fanouts f = some status ∧
      (status = .completed → ∃ m, x = .complete m) := by
  cases x with
  | discard m | reset m =>
    rcases fanouts_set with h | ⟨hne,h⟩
    · exact .inl h
    · exact .inr ⟨hne,_,h,fun h => by cases h⟩
  | complete m =>
    rcases fanouts_set with h | ⟨hne,h⟩
    · exact .inl h
    · exact .inr ⟨hne,_,h,fun _ => ⟨m,rfl⟩⟩
  | fanoutState | activityExists | requireQueue =>
    simp only [work]
    split <;> exact .inl rfl
  | loadActorCache run nowMs allowed todo rows => cases todo <;> exact .inl rfl
  | upsertJob run groups unknown requests =>
    cases groups with
    | nil => exact .inl rfl
    | cons =>
      simp only [work,upsertDeliveryJob]
      split <;> exact .inl rfl
  | sendRequests run unknown requests => cases requests <;> exact .inl rfl
  | selectDue run todo => cases todo <;> exact .inl rfl
  | idle | readPage | insertInbox | filterBlocked | selectJob | persistFirst | persist | sendDue
  | markQueued | sendContinuation => exact .inl rfl

theorem live_work : (work c i s x).1.fanouts f ≠ none ↔ s.fanouts f ≠ none := by
  rcases fanouts_work (c := c) (f := f) (s := s) (x := x) (i := i) with h | ⟨hne,status,h,_⟩
  · rw [h]
  · simp [h,hne]

theorem activities_work : (work c i s x).1.activities = s.activities := by
  cases x with
  | fanoutState | activityExists | requireQueue =>
    simp only [work]
    split <;> rfl
  | loadActorCache run nowMs allowed todo rows => cases todo <;> rfl
  | upsertJob run groups unknown requests =>
    cases groups with
    | nil => rfl
    | cons =>
      simp only [work,upsertDeliveryJob]
      split <;> rfl
  | sendRequests run unknown requests => cases requests <;> rfl
  | selectDue run todo => cases todo <;> rfl
  | idle | discard | reset | readPage | insertInbox | filterBlocked | selectJob | persistFirst
  | persist | sendDue | markQueued | sendContinuation | complete => rfl

end status

theorem own_work (h : Own f author s) (hx : x.Of f author) : Own f author (work c i s x).1 where
  sent m hm := by
    rcases sent_work hm with hm | rfl
    · exact h.sent m hm
    · exact hx
  author a ha := by
    rw [activities_work] at ha
    exact h.author a ha

section happen

variable {e : Event}

theorem own_happen (hf : f.Normal) (h : Own f author s) : Own f author (happen f e s) := by
  cases e with
  | publish =>
    refine ⟨fun m hm => ?_,h.author⟩
    rcases List.mem_append.mp hm with hm | hm
    · exact h.sent m hm
    · obtain rfl : m = buildFanoutMessage f := by simpa using hm
      exact of_buildFanoutMessage hf
  | deleteActivity =>
    refine ⟨h.sent,fun a ha => ?_⟩
    simp [happen,deleteActivity] at ha
  | markPublished | fail | deleteRemoteActor | moderate | cacheActors | changeAudience | workOnJob
  | workOnResolution => exact ⟨h.sent,h.author⟩

theorem fanouts_happen : (happen f e s).fanouts f = s.fanouts f ∨
    (happen f e s).fanouts f = none ∨
    s.fanouts f ≠ none ∧ ∃ status, (happen f e s).fanouts f = some status ∧
      status ≠ .completed := by
  cases e with
  | markPublished | fail =>
    rcases fanouts_set with h | ⟨hne,h⟩
    · exact .inl h
    · exact .inr (.inr ⟨hne,_,h,by decide⟩)
  | deleteActivity => exact .inr (.inl (Function.update_self ..))
  | publish | deleteRemoteActor | moderate | cacheActors | changeAudience | workOnJob
  | workOnResolution => exact .inl rfl

theorem live_happen (h : (happen f e s).fanouts f ≠ none) : s.fanouts f ≠ none := by
  rcases fanouts_happen (f := f) (s := s) (e := e) with heq | hnone | ⟨hne,_⟩
  · rwa [heq] at h
  · exact absurd hnone h
  · exact hne

theorem recipients_workOnJob {job id : JobId} {row : DeliveryRow} :
    ((happen f (.workOnJob job row) s).jobs id).recipients = (s.jobs id).recipients := by
  by_cases h : id = job
  · subst h
    simp [happen]
  · simp [happen,h]

theorem resolutions_workOnResolution {id id' : ResolutionId} {row : Resolution} :
    ((happen f (.workOnResolution id row) s).resolutions id').isSome =
      (s.resolutions id').isSome := by
  by_cases h : id' = id
  · subst h
    simp [happen,Statement.update]
  · simp [happen,h]

theorem covered_of_happen (h : Covered f g r (happen f e s)) : Covered f g r s := by
  cases e with
  | deleteActivity =>
    cases g with
    | localMembers => exact (Finset.mem_filter.mp h).1
    | remoteMembers | remoteFollowers =>
      rcases h with ⟨endpoint,he⟩ | hr
      · refine .inl ⟨endpoint,?_⟩
        simp only [happen,deleteActivity] at he
        split at he
        · cases he
        · exact he
      · refine .inr ?_
        simp only [happen,deleteActivity] at hr
        split at hr
        · cases hr
        · exact hr
  | deleteRemoteActor actor =>
    cases g with
    | localMembers => exact h
    | remoteMembers | remoteFollowers =>
      rcases h with ⟨endpoint,he⟩ | hr
      · exact .inl ⟨endpoint,(List.mem_filter.mp he).1⟩
      · refine .inr ?_
        simp only [happen,deleteRemoteActor] at hr
        split at hr
        · cases hr
        · exact hr
  | workOnJob job row =>
    cases g with
    | localMembers => exact h
    | remoteMembers | remoteFollowers =>
      simp only [Covered,Delivered,recipients_workOnJob] at h
      exact h
  | workOnResolution id row =>
    cases g with
    | localMembers => exact h
    | remoteMembers | remoteFollowers =>
      simp only [Covered,Delivered,resolutions_workOnResolution] at h
      exact h
  | publish | markPublished | fail | moderate | cacheActors | changeAudience =>
    exact (covered_congr rfl rfl rfl).mp h

theorem covered_happen (hlive : (happen f e s).fanouts f ≠ none)
    (hr : Reachable g r (happen f e s)) (h : Covered f g r s) : Covered f g r (happen f e s) := by
  cases e with
  | deleteActivity => exact absurd (Function.update_self ..) hlive
  | deleteRemoteActor actor =>
    cases g with
    | localMembers => exact h
    | remoteMembers | remoteFollowers =>
      have hne : r ≠ actor := fun heq => (hr (by decide)).2 (by rw [heq]; exact List.mem_cons_self)
      rcases h with ⟨endpoint,he⟩ | hs
      · exact .inl ⟨endpoint,List.mem_filter.mpr ⟨he,by simpa using hne⟩⟩
      · refine .inr ?_
        simp only [happen,deleteRemoteActor]
        rw [if_neg hne]
        exact hs
  | workOnJob job row =>
    cases g with
    | localMembers => exact h
    | remoteMembers | remoteFollowers =>
      simp only [Covered,Delivered,recipients_workOnJob]
      exact h
  | workOnResolution id row =>
    cases g with
    | localMembers => exact h
    | remoteMembers | remoteFollowers =>
      simp only [Covered,Delivered,resolutions_workOnResolution]
      exact h
  | publish | markPublished | fail | moderate | cacheActors | changeAudience =>
    exact (covered_congr rfl rfl rfl).mpr h

end happen

structure Swept (f : DeliveryFanoutIntent) (author : String) (g : CommunityStage) (r : String)
    (s : Store) : Prop where
  own : Own f author s
  sent : s.fanouts f ≠ none → ∀ m, .fanout m ∈ s.sent → Past g m.stage m.cursor r → Covered f g r s
  completed : s.fanouts f = some .completed → Covered f g r s

def SweptBy (c : Site) (f : DeliveryFanoutIntent) (author : String) (g : CommunityStage)
    (r : String) (_ : Nat) (s : Store) (x : Worker) : Prop :=
  x.Of f author ∧
    (s.fanouts f ≠ none → x.Past g r → Covered f g r s ∨ x.Pending c g r)

theorem swept_next {p : Nat} (hf : f.Normal) (hin : InStage c f author g r s)
    (hr : Reachable g r s) (h : Swept f author g r s) (hx : SweptBy c f author g r p s x)
    (hi : allowed i s x = true) :
    SweptBy c f author g r p (work c i s x).1 (work c i s x).2 := by
  refine ⟨of_work hf h.own hx.1 hi,fun hlive hpast => ?_⟩
  have hlive := live_work.mp hlive
  by_cases hidle : x = .idle
  · subst hidle
    exact .inl (h.sent hlive _ (of_decide_eq_true hi) hpast)
  by_cases hread : ∃ m a cursor processed, x = .readPage m a cursor processed
  · obtain ⟨m,a,cursor,processed,rfl⟩ := hread
    have hrun := past_withPage hin.kind hx.1.1 hpast
    rcases past_readPage processed hx.1.1 hin hrun with hp | ⟨hg,hmem⟩
    · exact .inl ((hx.2 hlive hp).resolve_right not_false)
    · exact .inr (pending_withPage hx.1 hin hg hmem)
  · have hx' := past_work hin.kind hx.1 hidle
      (fun m a cursor processed h => hread ⟨m,a,cursor,processed,h⟩) hpast
    rw [covered_work hx.1]
    rcases hx.2 hlive hx' with hc | hp
    · exact .inl (.inl hc)
    · rcases pending_work hr hp with hw | hp
      · exact .inl (.inr hw)
      · exact .inr hp

theorem swept_work {p : Nat} (h : Swept f author g r s) (hx : SweptBy c f author g r p s x) :
    Swept f author g r (work c i s x).1 where
  own := own_work h.own hx.1
  sent hlive m hm hpast := by
    have hlive := live_work.mp hlive
    rw [covered_work hx.1]
    rcases sent_work hm with hm | rfl
    · exact .inl (h.sent hlive m hm hpast)
    · exact .inl ((hx.2 hlive hpast).resolve_right not_false)
  completed hc := by
    rw [covered_work hx.1]
    rcases fanouts_work (c := c) (f := f) (s := s) (x := x) (i := i) with heq | ⟨hne,st,heq,hst⟩
    · rw [heq] at hc
      exact .inl (h.completed hc)
    · rw [heq] at hc
      cases hc
      obtain ⟨m,rfl⟩ := hst rfl
      exact .inl ((hx.2 hne trivial).resolve_right not_false)

theorem swept_stable (hf : f.Normal) :
    (threads c f).StableWhile (fun s => InStage c f author g r s ∧ Reachable g r s)
      (Swept f author g r) (SweptBy c f author g r) where
  own i p s x t y hp h hx hn := by
    obtain ⟨hi,hw⟩ := Threads.guarded_next.mp hn
    obtain ⟨rfl,rfl⟩ := Prod.mk.injEq _ _ _ _ ▸ hw
    refine ⟨swept_work h hx,?_⟩
    by_cases hfails : i.fails = true
    · rw [if_pos hfails]
      exact ⟨trivial,fun _ h => h.elim⟩
    · rw [if_neg hfails]
      exact swept_next hf hp.1 hp.2 h hx hi
  other i p q s x t y z h hx hz _ hn := by
    obtain ⟨hi,hw⟩ := Threads.guarded_next.mp hn
    obtain ⟨rfl,rfl⟩ := Prod.mk.injEq _ _ _ _ ▸ hw
    refine ⟨hz.1,fun hlive hpast => ?_⟩
    rw [covered_work hx.1]
    exact (hz.2 (live_work.mp hlive) hpast).imp_left .inl
  env e s t hp h he := by
    obtain ⟨_,rfl⟩ := Threads.guarded_env.mp he
    refine ⟨⟨own_happen hf h.own,fun hlive m hm hpast => ?_,fun hc => ?_⟩,fun q z hz =>
      ⟨hz.1,fun hlive hpast => ?_⟩⟩
    · refine covered_happen hlive hp.2 ?_
      have hbefore := live_happen hlive
      cases e with
      | publish =>
        rcases List.mem_append.mp hm with hm | hm
        · exact h.sent hbefore m hm hpast
        · obtain rfl : m = buildFanoutMessage f := by simpa using hm
          refine absurd hpast ?_
          have hk := hp.1.kind
          cases f with
          | followers =>
            cases g <;> simp_all [Past,buildFanoutMessage,FanoutMessage.stage,FanoutMessage.cursor,
              CommunityStage.rank,DeliveryFanoutIntent.isCommunity]
          | community =>
            simp [Past,buildFanoutMessage,FanoutMessage.stage,FanoutMessage.cursor,
              CommunityStage.rank]
      | markPublished | fail | deleteActivity | deleteRemoteActor | moderate | cacheActors
      | changeAudience | workOnJob | workOnResolution => exact h.sent hbefore m hm hpast
    · have hlive : (happen f e s).fanouts f ≠ none := by simp [hc]
      refine covered_happen hlive hp.2 (h.completed ?_)
      rcases fanouts_happen (f := f) (s := s) (e := e) with heq | hnone | ⟨_,st,heq,hst⟩
      · rwa [heq] at hc
      · exact absurd hnone hlive
      · rw [heq] at hc
        cases hc
        exact absurd rfl hst
    · exact (hz.2 (live_happen hlive) hpast).imp_left (covered_happen hlive hp.2)

def Untouched (c : Site) (f : DeliveryFanoutIntent) (author : String) (g : CommunityStage)
    (r : String) (_ : Nat) (_ : Store) (x : Worker) : Prop :=
  x.Of f author ∧ ¬x.Pending c g r

theorem untouched_stable (hf : f.Normal) :
    (threads c f).StableWhile
      (fun s => ∀ stage, (stage = .localMembers ↔ g = .localMembers) →
        ¬InStage c f author stage r s)
      (fun s => Own f author s ∧ ¬Covered f g r s) (Untouched c f author g r) where
  own i p s x t y hp h hx hn := by
    obtain ⟨hi,hw⟩ := Threads.guarded_next.mp hn
    obtain ⟨rfl,rfl⟩ := Prod.mk.injEq _ _ _ _ ▸ hw
    refine ⟨⟨own_work h.1 hx.1,fun hc => ?_⟩,?_⟩
    · rcases (covered_work hx.1).mp hc with hc | hw
      · exact h.2 hc
      · exact hx.2 (writes_pending hw)
    · by_cases hfails : i.fails = true
      · rw [if_pos hfails]
        exact ⟨trivial,not_false⟩
      · rw [if_neg hfails]
        refine ⟨of_work hf h.1 hx.1 hi,fun hpend => ?_⟩
        by_cases hread : ∃ m a cursor processed, x = .readPage m a cursor processed
        · obtain ⟨m,a,cursor,processed,rfl⟩ := hread
          have hrun : (PageRun.mk m a processed (Keyset.page fanoutFollowerPageSize cursor
            (s.stageRows m.targetApId m.stage))).message.Of f ∧ a = author := hx.1
          obtain ⟨hl,hin⟩ := inStage_of_pending hrun
            (fun r hr => hx.1.1.targetApId ▸ Keyset.mem_of_mem_page hr) hpend
          exact hp _ hl hin
        · refine hx.2 (pending_of_work (fun m a cursor processed h => ?_) hpend)
          exact hread ⟨m,a,cursor,processed,h⟩
  other i p q s x t y z h hx hz _ hn := hz
  env e s t hp h he := by
    obtain ⟨_,rfl⟩ := Threads.guarded_env.mp he
    exact ⟨⟨own_happen hf h.1,fun hc => h.2 (covered_of_happen hc)⟩,fun q z hz => hz⟩

theorem Start.own {s : Pool} (h : Start f author s) : Own f author s.store where
  sent m hm := absurd hm (h.sent m)
  author a ha := by
    rw [h.author] at ha
    cases ha
    rfl

theorem Start.uncovered {s : Pool} (h : Start f author s) : ¬Covered f g r s.store := by
  cases g with
  | localMembers => exact fun hc => h.inbox _ hc rfl
  | remoteMembers | remoteFollowers =>
    rintro (⟨endpoint,he⟩ | hr)
    · rw [h.jobs] at he
      cases he
    · rw [h.resolutions] at hr
      cases hr

/-- Once the fan-out is completed, who has always been in the audience of a stage, and if
remote neither blocked nor tombstoned, has the activity; and nobody gets an inbox row, or a
delivery, who has been in the audience of no such stage. -/
theorem fanout_complete {s₀ : Pool} (h : Start f author s₀) (g : CommunityStage) (r : String) :
    (∀ s, (machine c f).ReachesBy
        (Threads.Throughout fun s => InStage c f author g r s ∧ Reachable g r s) s₀ s →
      s.store.fanouts f = some .completed → Covered f g r s.store) ∧
    ∀ s, (machine c f).ReachesBy
        (Threads.Throughout fun s => ∀ stage, (stage = .localMembers ↔ g = .localMembers) →
          ¬InStage c f author stage r s) s₀ s →
      ¬Covered f g r s.store := by
  constructor
  · intro s hr hc
    have hstart : Threads.Holds (Swept f author g r) (SweptBy c f author g r) s₀ := by
      refine ⟨⟨h.own,fun _ m hm => absurd hm (h.sent m),fun hc => ?_⟩,fun p => ?_⟩
      · rw [h.status] at hc
        cases hc
      · rw [h.idle]
        exact ⟨trivial,fun _ hp => hp.elim⟩
    exact ((swept_stable h.intent).reaches hr hstart).1.completed hc
  · intro s hr
    have hstart : Threads.Holds (fun s => Own f author s ∧ ¬Covered f g r s)
        (Untouched c f author g r) s₀ := by
      refine ⟨⟨h.own,h.uncovered⟩,fun p => ?_⟩
      rw [h.idle]
      exact ⟨trivial,not_false⟩
    exact ((untouched_stable h.intent).reaches hr hstart).1.2

theorem audience_work : (work c i s x).1.follows = s.follows ∧
    (work c i s x).1.communityMembers = s.communityMembers ∧
    (work c i s x).1.blocked = s.blocked ∧ (work c i s x).1.tombstones = s.tombstones := by
  cases x with
  | fanoutState | activityExists | requireQueue =>
    simp only [work]
    split <;> exact ⟨rfl,rfl,rfl,rfl⟩
  | loadActorCache run nowMs allowed todo rows => cases todo <;> exact ⟨rfl,rfl,rfl,rfl⟩
  | upsertJob run groups unknown requests =>
    cases groups with
    | nil => exact ⟨rfl,rfl,rfl,rfl⟩
    | cons =>
      simp only [work,upsertDeliveryJob]
      split <;> exact ⟨rfl,rfl,rfl,rfl⟩
  | sendRequests run unknown requests => cases requests <;> exact ⟨rfl,rfl,rfl,rfl⟩
  | selectDue run todo => cases todo <;> exact ⟨rfl,rfl,rfl,rfl⟩
  | idle | discard | reset | readPage | insertInbox | filterBlocked | selectJob | persistFirst
  | persist | sendDue | markQueued | sendContinuation | complete => exact ⟨rfl,rfl,rfl,rfl⟩

def steady : Threads.Label Answer Event → Bool
  | .act _ _ | .env .publish => true
  | .env _ => false

theorem audience_step {l : Threads.Label Answer Event} {a b : Pool} (hl : steady l = true)
    (hs : (machine c f).step l a = some b) :
    b.store.follows = a.store.follows ∧ b.store.communityMembers = a.store.communityMembers ∧
      b.store.blocked = a.store.blocked ∧ b.store.tombstones = a.store.tombstones := by
  cases l with
  | act p i =>
    obtain ⟨_,rfl⟩ := Threads.guarded_step_act.mp hs
    exact audience_work
  | env e =>
    obtain ⟨_,rfl⟩ := Threads.guarded_step_env.mp hs
    cases e with
    | publish => exact ⟨rfl,rfl,rfl,rfl⟩
    | markPublished | fail | deleteActivity | deleteRemoteActor | moderate | cacheActors
    | changeAudience | workOnJob | workOnResolution => cases hl

/-- The runs alone change nobody's place in the audience. -/
theorem throughout_of_run {ls : List (Threads.Label Answer Event)} {a b : Pool}
    (hls : ∀ l ∈ ls, steady l = true) (hr : (machine c f).run ls a = some b)
    (hin : InStage c f author g r a.store ∧ Reachable g r a.store) :
    (machine c f).ReachesBy
      (Threads.Throughout fun s => InStage c f author g r s ∧ Reachable g r s) a b := by
  induction ls generalizing a with
  | nil =>
    cases hr
    exact .refl _
  | cons l ls ih =>
    obtain ⟨d,hd,hrest⟩ := Option.bind_eq_some_iff.mp hr
    obtain ⟨hf,hm,hb,ht⟩ := audience_step (hls l List.mem_cons_self) hd
    have hin' : InStage c f author g r d.store ∧ Reachable g r d.store := by
      obtain ⟨⟨hk,hrow,hloc,ha⟩,hreach⟩ := hin
      refine ⟨⟨hk,?_,hloc,ha⟩,?_⟩
      · cases g <;> simpa only [Store.stageRows,Store.members,Store.acceptedFollowers,hf,hm]
          using hrow
      · simpa only [Reachable,hb,ht] using hreach
    refine (Machine.ReachesBy.snoc (.refl _) hd ⟨hin,hin'⟩).trans ?_
    exact ih (fun l hl => hls l (List.mem_cons_of_mem _ hl)) hrest hin'

def site : Site where
  isLocal apId := apId = "https://a.example/ap/users/b"
  isSafeRemoteUrl _ := true
  safeParseIsoTimeMs _ := none

def intent : DeliveryFanoutIntent :=
  .community "https://a.example/ap/activities/1" "https://a.example/ap/groups/g" none

def posted : Pool where
  store :=
    { fanouts := fun f => if f = intent then some .pending else none
      activities := fun a =>
        if a = intent.activityId then some "https://a.example/ap/users/a" else none
      follows := []
      communityMembers := [⟨intent.targetApId,"https://a.example/ap/users/b"⟩,
        ⟨intent.targetApId,"https://c.example/users/c"⟩]
      inbox := ∅
      jobs := fun _ => ⟨none,[]⟩
      resolutions := fun _ => none
      actorCache := []
      blocked := fun _ => false
      tombstones := []
      sent := [] }
  thread _ := .idle

theorem posted_start : Start intent "https://a.example/ap/users/a" posted where
  intent := rfl
  status := rfl
  author := rfl
  inbox row hrow := absurd hrow (Finset.notMem_empty row)
  jobs _ := rfl
  resolutions _ := rfl
  sent _ hm := by cases hm
  idle _ := rfl

theorem posted_member : InStage site intent "https://a.example/ap/users/a" .remoteMembers
    "https://c.example/users/c" posted.store ∧
      Reachable .remoteMembers "https://c.example/users/c" posted.store :=
  ⟨⟨fun _ => rfl,by decide,by decide,by decide⟩,fun _ => ⟨rfl,by decide⟩⟩

def works (m : FanoutMessage) (n : Nat) : List (Threads.Label Answer Event) :=
  List.replicate n (.act 0 ⟨m,true,0,false⟩)

def postedRun : List (Threads.Label Answer Event) :=
  let first := buildFanoutMessage intent
  .env .publish :: works first 7 ++ works (first.continuation .remoteMembers none) 16 ++
    works (first.continuation .remoteFollowers none) 6

/-- The remote member has its delivery at the end of the fan-out. -/
theorem fanout_complete_posted : ∃ s, (machine site intent).Reaches posted s ∧
    s.store.fanouts intent = some .completed ∧
    Covered intent .remoteMembers "https://c.example/users/c" s.store := by
  have hrun : ((machine site intent).run postedRun posted).map
      (fun s => s.store.fanouts intent) = some (some .completed) := by decide
  obtain ⟨s,hs,hcompleted⟩ := Option.map_eq_some_iff.mp hrun
  have hby := throughout_of_run (by decide) hs posted_member
  refine ⟨s,.of_run hs,hcompleted,?_⟩
  exact (fanout_complete posted_start .remoteMembers "https://c.example/users/c").1 s hby
    hcompleted

end Yurucommu.Fanout
