import Yurucommu.FanoutRun

/-!
What each statement of a fan-out does to who is covered: the local members with an inbox
row, and the remote recipients with a row of an endpoint job or a resolution.
-/

set_option autoImplicit false

namespace Yurucommu.Fanout

open Delivery

variable {c : Site} {f : DeliveryFanoutIntent} {author r : String} {g : CommunityStage} {s : Store}

def HasInbox (f : DeliveryFanoutIntent) (r : String) (s : Store) : Prop :=
  ⟨r,f.activityId⟩ ∈ s.inbox

def Delivered (f : DeliveryFanoutIntent) (r : String) (s : Store) : Prop :=
  (∃ endpoint, r ∈ (s.jobs ⟨f.remoteActivityId,endpoint⟩).recipients) ∨
    (s.resolutions ⟨f.remoteActivityId,r⟩).isSome

def Covered (f : DeliveryFanoutIntent) (g : CommunityStage) (r : String) (s : Store) : Prop :=
  match g with
  | .localMembers => HasInbox f r s
  | .remoteMembers | .remoteFollowers => Delivered f r s

theorem hasInbox_insertInbox {activityId : String} {actors : List String} :
    HasInbox f r (insertInbox activityId actors s) ↔
      HasInbox f r s ∨ activityId = f.activityId ∧ r ∈ actors := by
  simp only [HasInbox,insertInbox,Finset.mem_union,Finset.mem_image,List.mem_toFinset,
    InboxRow.mk.injEq]
  constructor
  · rintro (h | ⟨a,ha,rfl,hid⟩)
    · exact .inl h
    · exact .inr ⟨hid,ha⟩
  · rintro (h | ⟨hid,hr⟩)
    · exact .inl h
    · exact .inr ⟨r,hr,rfl,hid⟩

theorem mem_insertRecipients {tombstones kept new : List String} :
    r ∈ insertRecipients tombstones kept new ↔ r ∈ kept ∨ r ∈ new ∧ r ∉ tombstones := by
  simp only [insertRecipients,List.mem_append,List.mem_filter,List.mem_eraseDups,
    Bool.and_eq_true,Bool.not_eq_true',List.contains_eq_mem,decide_eq_false_iff_not]
  constructor
  · rintro (h | ⟨hn,_,ht⟩)
    · exact .inl h
    · exact .inr ⟨hn,ht⟩
  · rintro (h | ⟨hn,ht⟩)
    · exact .inl h
    · by_cases hk : r ∈ kept
      · exact .inl hk
      · exact .inr ⟨hn,hk,ht⟩

/-- A job is deleted only when it has no recipient. -/
theorem upsertRow_isSome {retained : Bool} {activityId endpoint : String} {now : Nat}
    {row : Option DeliveryRow} (h : retained = true) :
    (upsertRow retained activityId endpoint now row).isSome = true := by
  subst h
  rcases Statement.deleteWhere_cases (abandoned true)
    (Statement.update (retargetable true) (retarget activityId endpoint)
      (Statement.insertIgnore (newJob activityId endpoint now) row)) with heq | ⟨old,_,hd,_⟩
  · rw [upsertRow,heq]
    cases row <;> rfl
  · simp [abandoned] at hd

theorem recipients_upsert {job id : JobId} {recipients : List String} {now : Nat} :
    r ∈ ((upsertDeliveryJob job recipients now s).jobs id).recipients ↔
      r ∈ (s.jobs id).recipients ∨ id = job ∧ r ∈ recipients ∧ r ∉ s.tombstones := by
  unfold upsertDeliveryJob
  split
  · rename_i hnone
    simp [hnone]
  · by_cases hid : id = job
    · subst hid
      simp only [Function.update_self,true_and]
      rw [← mem_insertRecipients]
      split
      · rfl
      · rename_i hleft
        have hempty : insertRecipients s.tombstones (s.jobs id).recipients recipients = [] := by
          by_contra hne
          refine hleft (upsertRow_isSome ?_)
          simpa using hne
        rw [hempty]
    · simp only [Function.update_of_ne hid,hid,false_and,or_false]

theorem delivered_upsert {endpoint activityId : String} {recipients : List String} {now : Nat}
    (ha : activityId = f.remoteActivityId) :
    Delivered f r (upsertDeliveryJob ⟨activityId,endpoint⟩ recipients now s) ↔
      Delivered f r s ∨ r ∈ recipients ∧ r ∉ s.tombstones := by
  subst ha
  have hres : (upsertDeliveryJob ⟨f.remoteActivityId,endpoint⟩ recipients now s).resolutions =
      s.resolutions := by
    unfold upsertDeliveryJob
    split <;> rfl
  simp only [Delivered,recipients_upsert,hres,JobId.mk.injEq,true_and]
  constructor
  · rintro (⟨e,he | ⟨_,hr⟩⟩ | h)
    · exact .inl (.inl ⟨e,he⟩)
    · exact .inr hr
    · exact .inl (.inr h)
  · rintro ((⟨e,he⟩ | h) | hr)
    · exact .inl ⟨e,.inl he⟩
    · exact .inr h
    · exact .inl ⟨endpoint,.inr ⟨rfl,hr⟩⟩

theorem delivered_persist {activityId : String} {recipients : List String} {now : Nat}
    (ha : activityId = f.remoteActivityId) :
    Delivered f r (persistDeliveryResolutionJobs activityId recipients now s) ↔
      Delivered f r s ∨ r ∈ recipients ∧ r ∉ s.tombstones := by
  subst ha
  simp only [Delivered,persistDeliveryResolutionJobs,Option.isSome_or,Bool.or_eq_true,true_and]
  rw [or_assoc]
  refine or_congr_right (or_congr_right ?_)
  split <;> simp_all

theorem delivered_markQueued {due : List (ResolutionId × Nat)} :
    Delivered f r (markQueued due s) ↔ Delivered f r s := by
  refine or_congr_right ?_
  simp only [markQueued]
  split
  · rw [Statement.update,Option.isSome_map]
  · rfl

def DeliveryFanoutIntent.message (f : DeliveryFanoutIntent) (stage : Option CommunityStage)
    (cursor : Option String) : FanoutMessage :=
  match f with
  | .followers activityId targetApId => .followers activityId targetApId cursor
  | .community activityId targetApId announceActivityId =>
    .community activityId targetApId announceActivityId stage cursor

def FanoutMessage.Of (f : DeliveryFanoutIntent) (m : FanoutMessage) : Prop :=
  ∃ stage cursor, m = f.message stage cursor

def DeliveryFanoutIntent.Normal (f : DeliveryFanoutIntent) : Prop :=
  deliveryFanoutIntentFromMessage (buildFanoutMessage f) = f

theorem truthy_truthy (x : Option String) : truthy (truthy x) = truthy x := by
  simp [truthy,Option.filter_filter]

theorem DeliveryFanoutIntent.Normal.truthy {activityId targetApId : String}
    {announceActivityId : Option String}
    (h : (DeliveryFanoutIntent.community activityId targetApId announceActivityId).Normal) :
    Fanout.truthy announceActivityId = announceActivityId := by
  simpa [Normal,buildFanoutMessage,deliveryFanoutIntentFromMessage,truthy_truthy] using h

section message

variable {m : FanoutMessage} {stage : CommunityStage} {cursor : Option String}

theorem FanoutMessage.Of.activityId (h : m.Of f) : m.activityId = f.activityId := by
  obtain ⟨stage,cursor,rfl⟩ := h
  cases f <;> rfl

theorem FanoutMessage.Of.targetApId (h : m.Of f) : m.targetApId = f.targetApId := by
  obtain ⟨stage,cursor,rfl⟩ := h
  cases f <;> rfl

theorem FanoutMessage.Of.remoteActivityId (h : m.Of f) :
    m.remoteActivityId = f.remoteActivityId := by
  obtain ⟨stage,cursor,rfl⟩ := h
  cases f <;> rfl

theorem FanoutMessage.Of.continuation (hf : f.Normal) (h : m.Of f) :
    (m.continuation stage cursor).Of f := by
  obtain ⟨stage',cursor',rfl⟩ := h
  cases f with
  | followers => exact ⟨none,cursor,rfl⟩
  | community =>
    refine ⟨some stage,Fanout.truthy cursor,?_⟩
    simp only [DeliveryFanoutIntent.message,FanoutMessage.continuation,hf.truthy]

theorem of_buildFanoutMessage (hf : f.Normal) : (buildFanoutMessage f).Of f := by
  cases f with
  | followers => exact ⟨none,none,rfl⟩
  | community =>
    refine ⟨none,none,?_⟩
    simp only [DeliveryFanoutIntent.message,buildFanoutMessage,hf.truthy]

end message

def Worker.Of (f : DeliveryFanoutIntent) (author : String) : Worker → Prop
  | .idle => True
  | .fanoutState m | .activityExists m | .discard m | .reset m | .sendContinuation m
  | .complete m => m.Of f
  | .requireQueue m a | .readPage m a _ _ => m.Of f ∧ a = author
  | .insertInbox run | .filterBlocked run | .loadActorCache run _ _ _ _ | .upsertJob run _ _ _
  | .selectJob run _ _ _ _ | .persistFirst run _ _ | .sendRequests run _ _ | .persist run _
  | .selectDue run _ | .sendDue run _ _ | .markQueued run _ _ =>
    run.message.Of f ∧ run.author = author

structure Own (f : DeliveryFanoutIntent) (author : String) (s : Store) : Prop where
  sent : ∀ m, .fanout m ∈ s.sent → m.Of f
  author : ∀ a, s.activities f.activityId = some a → a = author

section own

variable {x : Worker} {i : Answer} {run : PageRun}

theorem of_afterPage (hf : f.Normal) (h : run.message.Of f ∧ run.author = author) :
    (afterPage run).Of f author := by
  unfold afterPage
  split
  · split
    · exact h.1
    · split
      · exact h.1.continuation hf
      · exact h
  · split
    · exact h.1.continuation hf
    · split
      · exact h.1.continuation hf
      · exact h.1.continuation hf
      · exact h.1

theorem of_withPage (hf : f.Normal) (h : run.message.Of f ∧ run.author = author) :
    (withPage c run).Of f author := by
  unfold withPage
  split
  · split
    · exact of_afterPage hf h
    · exact h
  · split
    · exact of_afterPage hf h
    · exact h

theorem of_work (hf : f.Normal) (h : Own f author s) (hx : x.Of f author)
    (hi : allowed i s x = true) : (work c i s x).2.Of f author := by
  cases x with
  | idle => exact h.sent _ (of_decide_eq_true hi)
  | fanoutState m =>
    simp only [work]
    split
    · trivial
    · exact hx
    · exact hx
  | activityExists m =>
    simp only [work]
    split
    · exact hx
    · rename_i a ha
      have hm : m.Of f := hx
      rw [hm.activityId] at ha
      exact ⟨hx,h.author a ha⟩
  | requireQueue m a =>
    simp only [work]
    split
    · exact hx
    · exact hx.1
  | readPage m a cursor processed => exact of_withPage hf hx
  | insertInbox run => exact of_afterPage hf hx
  | filterBlocked run => exact hx
  | loadActorCache run nowMs allowed todo rows => cases todo <;> exact hx
  | upsertJob run groups unknown requests =>
    cases groups with
    | nil =>
      simp only [work,afterJobs]
      split <;> exact hx
    | cons => exact hx
  | sendRequests run unknown requests => cases requests <;> exact hx
  | selectDue run todo =>
    cases todo with
    | nil => exact of_afterPage hf hx
    | cons => exact hx
  | selectJob | persistFirst | persist | sendDue | markQueued => exact hx
  | discard | reset | sendContinuation | complete => trivial

theorem sent_work {m : FanoutMessage} (h : .fanout m ∈ (work c i s x).1.sent) :
    .fanout m ∈ s.sent ∨ x = .sendContinuation m := by
  cases x with
  | sendContinuation m' =>
    rcases List.mem_append.mp h with h | h
    · exact .inl h
    · obtain rfl : m = m' := by simpa using h
      exact .inr rfl
  | sendRequests run unknown requests =>
    cases requests with
    | nil => exact .inl h
    | cons =>
      refine .inl ((List.mem_append.mp h).resolve_right fun h => ?_)
      obtain ⟨_,_,h⟩ := List.mem_map.mp h
      cases h
  | sendDue =>
    refine .inl ((List.mem_append.mp h).resolve_right fun h => ?_)
    obtain ⟨_,_,h⟩ := List.mem_map.mp h
    cases h
  | upsertJob run groups unknown requests =>
    cases groups with
    | nil => exact .inl h
    | cons =>
      refine .inl ?_
      simp only [work,upsertDeliveryJob] at h
      split at h <;> exact h
  | fanoutState | activityExists | requireQueue =>
    refine .inl ?_
    simp only [work] at h
    split at h <;> exact h
  | loadActorCache run nowMs allowed todo rows => cases todo <;> exact .inl h
  | selectDue run todo => cases todo <;> exact .inl h
  | idle | discard | reset | readPage | insertInbox | filterBlocked | selectJob | persistFirst
  | persist | markQueued | complete => exact .inl h

end own

end Yurucommu.Fanout
