import Yurucommu.PostAudienceKept

/-!
Whom the Create of a post is sent to, one by one and by fan-out, and whether its later edits and its
deletion are sent there too.
-/

set_option autoImplicit false

namespace Yurucommu.PostAudience

open Whatwg (Text)

section mentions

variable (w : Site) (actorApId : Text) (lookup : Text → Option Text)

/-- One mention of `resolvePostMentions`; `lookup` reads the row of its local or cached actor. -/
def resolveMention (found : Mentions) (mention : Text) : Mentions :=
  match lookup mention with
  | none => found
  | some actor =>
    if actor = [] || actor = actorApId || found.mentionedActorApIds.contains actor then found
    else
      { tags := found.tags ++ [⟨"Mention".toList,actor,'@' :: w.formatUsername actor⟩]
        mentionedActorApIds := found.mentionedActorApIds ++ [actor]
        remoteMentionedActorApIds := found.remoteMentionedActorApIds ++
          if w.isLocal actor then [] else [actor] }

def resolvePostMentions (hashtags : List Tag) (mentions : List Text) : Mentions :=
  mentions.foldl (resolveMention w actorApId lookup) { tags := hashtags }

structure Draft where
  input : PostInput
  hashtags : List Tag
  mentions : List Text

end mentions

section promise

variable (w : Site) (lookup : Text → Option Text) (draft : Draft)

def Draft.resolved : Mentions :=
  resolvePostMentions w draft.input.actorApId lookup draft.hashtags draft.mentions

def Draft.op (row : Option Bool) : Op := .createPost draft.input (draft.resolved w lookup) row

def Op.created : Op → Option Text
  | .createPost input _ _ => some input.objectApId
  | .createDm _ objectApId _ _ | .createChat _ objectApId _ _ | .createStory _ objectApId _ =>
    some objectApId
  | .receive o => some o.apId
  | _ => none

def reached (d e : Db) : List Text := (e.deliveries.drop d.deliveries.length).map (·.recipient)

def fannedOut (d e : Db) : List (FanoutKind × Text) :=
  (e.fanouts.drop d.fanouts.length).map fun x => (x.kind,x.targetApId)

/-- What is promised of a step on a post, beside the step that created it. -/
structure Follows (c₀ c₁ d e : Db) : Prop where
  recipients : ∀ r ∈ reached c₀ c₁, r ∈ reached d e
  target : fannedOut d e = fannedOut c₀ c₁

/-- A remote actor that the post addresses: a mention, or the author that it replies to. -/
structure Remote (r : Text) : Prop where
  named : r ≠ []
  other : r ≠ draft.input.actorApId
  remote : w.isLocal r = false
  addressed : (∃ mention ∈ draft.mentions, lookup mention = some r) ∨
    (draft.input.visibility ≠ .direct ∧ draft.input.inReplyTo.isSome = true ∧
      draft.input.parentAuthor = some r)

def Fanned (row : Option Bool) : Prop := draft.input.community.isSome = true → row.isSome = true

/-- The author of the post that is replied to, as it is stored. -/
def storedParent (d : Db) : Option Text :=
  draft.input.inReplyTo.bind fun parent =>
    (d.objects.find? fun o => o.apId = parent).map (·.attributedTo)

structure MeetsUpdate (row : Option Bool) : Prop where
  open_ : draft.input.visibility ≠ .direct
  nobody : ∀ r, ¬Remote w lookup draft r
  fanned : Fanned draft row

structure MeetsDelete (row : Option Bool) (d : Db) : Prop where
  safe : ∀ r, Remote w lookup draft r → w.isSafeRemoteUrl r = true ∧
    ((r ≠ publicUrl ∧ "/followers".toList.isSuffixOf r = false) ∨ storedParent draft d = some r)
  fanned : draft.input.visibility ≠ .direct → Fanned draft row

end promise

section resolved

variable {w : Site} {actorApId : Text} {lookup : Text → Option Text} {draft : Draft}

structure Found (w : Site) (actorApId : Text) (lookup : Text → Option Text) (seen : List Text)
    (found : Mentions) : Prop where
  mem : ∀ r, r ∈ found.mentionedActorApIds ↔
    r ≠ [] ∧ r ≠ actorApId ∧ ∃ mention ∈ seen, lookup mention = some r
  remote : found.remoteMentionedActorApIds = found.mentionedActorApIds.filter fun r => !w.isLocal r

theorem Found.resolveMention {seen : List Text} {found : Mentions}
    (h : Found w actorApId lookup seen found) (mention : Text) :
    Found w actorApId lookup (seen ++ [mention])
      (resolveMention w actorApId lookup found mention) := by
  have hseen : ∀ r, (∃ m ∈ seen ++ [mention], lookup m = some r) ↔
      (∃ m ∈ seen, lookup m = some r) ∨ lookup mention = some r := by
    intro r
    simp [or_and_right,exists_or]
  unfold PostAudience.resolveMention
  cases hl : lookup mention with
  | none => exact ⟨fun r => by rw [h.mem,hseen,hl]; simp,h.remote⟩
  | some actor =>
    dsimp only
    split
    · rename_i hskip
      refine ⟨fun r => ?_,h.remote⟩
      rw [h.mem,hseen,hl]
      refine and_congr_right fun hr => and_congr_right fun ha => ⟨.inl,fun hor => ?_⟩
      rcases hor with hin | heq
      · exact hin
      · obtain rfl := Option.some.inj heq
        simp only [hr,ha,decide_false,Bool.false_or,List.contains_iff_mem] at hskip
        exact ((h.mem actor).mp hskip).2.2
    · rename_i hnew
      simp only [Bool.or_eq_true,decide_eq_true_eq,not_or] at hnew
      constructor
      · intro r
        rw [List.mem_append,h.mem,hseen,hl,List.mem_singleton,Option.some.injEq]
        constructor
        · rintro (⟨hr,ha,hin⟩ | rfl)
          · exact ⟨hr,ha,.inl hin⟩
          · exact ⟨hnew.1.1,hnew.1.2,.inr rfl⟩
        · rintro ⟨hr,ha,hin | heq⟩
          · exact .inl ⟨hr,ha,hin⟩
          · exact .inr heq.symm
      · rw [List.filter_append,h.remote]
        cases hlocal : w.isLocal actor <;> simp [hlocal]

theorem found_resolvePostMentions (hashtags : List Tag) (mentions : List Text) :
    Found w actorApId lookup mentions
      (resolvePostMentions w actorApId lookup hashtags mentions) := by
  induction mentions using List.reverseRecOn with
  | nil => exact ⟨fun r => by simp [resolvePostMentions],rfl⟩
  | append_singleton seen mention ih =>
    rw [resolvePostMentions,List.foldl_append]
    exact ih.resolveMention mention

theorem mem_mergeCc {cc extra : List Text} {iri : Text} :
    iri ∈ mergeCc cc extra ↔ iri ∈ cc ∨ (iri ∈ extra ∧ iri ≠ []) := by
  unfold mergeCc
  induction extra generalizing cc with
  | nil => simp
  | cons e extra ih =>
    rw [List.foldl_cons,ih,List.mem_cons]
    split
    · rename_i hadd
      simp only [Bool.and_eq_true,decide_eq_true_eq,List.length_pos_iff] at hadd
      rw [List.mem_append,List.mem_singleton]
      constructor
      · rintro ((h | rfl) | ⟨h,hne⟩)
        · exact .inl h
        · exact .inr ⟨.inl rfl,hadd.1⟩
        · exact .inr ⟨.inr h,hne⟩
      · rintro (h | ⟨rfl | h,hne⟩)
        · exact .inl (.inl h)
        · exact .inl (.inr rfl)
        · exact .inr ⟨h,hne⟩
    · rename_i hskip
      refine ⟨Or.imp_right fun h => ⟨.inr h.1,h.2⟩,?_⟩
      rintro (h | ⟨rfl | h,hne⟩)
      · exact .inl h
      · refine .inl ?_
        simpa [List.length_pos_iff,hne] using hskip
      · exact .inr ⟨h,hne⟩

end resolved

section created

variable (w : Site) (lookup : Text → Option Text) (draft : Draft)

def Draft.parent : Option Text :=
  replyRecipient draft.input (draft.resolved w lookup).mentionedActorApIds

def Draft.recipients : List Text :=
  (draft.resolved w lookup).mentionedActorApIds ++ (draft.parent w lookup).toList

def Draft.remoteRecipients : List Text :=
  (draft.resolved w lookup).remoteMentionedActorApIds ++
    ((draft.parent w lookup).filter fun author => !w.isLocal author).toList

structure Addressed (o : Object) : Prop where
  author : o.attributedTo = draft.input.actorApId
  reply : o.inReplyTo = draft.input.inReplyTo
  visibility : o.visibility = draft.input.visibility
  community : o.communityApId = draft.input.community.map (·.apId)
  ccJson : ∀ r ∈ draft.recipients w lookup, r ≠ [] → r ∈ o.ccJson

end created

section created

variable {w : Site} {lookup : Text → Option Text} {draft : Draft} {row : Option Bool}
  {c₀ c₁ d e : Db} {post : Object}

theorem mem_parent {r : Text} : draft.parent w lookup = some r ↔
    draft.input.inReplyTo.isSome = true ∧ draft.input.visibility ≠ .direct ∧
      draft.input.parentAuthor = some r ∧ r ≠ [] ∧ r ≠ draft.input.actorApId ∧
        r ∉ (draft.resolved w lookup).mentionedActorApIds := by
  unfold Draft.parent replyRecipient
  simp only [Option.ite_none_right_eq_some,Bool.and_eq_true,decide_eq_true_eq,
    Option.filter_eq_some_iff,List.length_pos_iff,Bool.not_eq_true',List.any_eq_false,ne_eq]
  constructor
  · rintro ⟨⟨hi,hv⟩,hp,⟨hr,ha⟩,hm⟩
    exact ⟨hi,hv,hp,hr,ha,fun hin => hm r hin rfl⟩
  · rintro ⟨hi,hv,hp,hr,ha,hm⟩
    exact ⟨⟨hi,hv⟩,hp,⟨hr,ha⟩,fun x hx heq => hm (heq ▸ hx)⟩

theorem found_resolved : Found w draft.input.actorApId lookup draft.mentions
    (draft.resolved w lookup) := found_resolvePostMentions _ _

theorem mem_remoteRecipients {r : Text} :
    r ∈ draft.remoteRecipients w lookup ↔ Remote w lookup draft r := by
  have hfound : Found w draft.input.actorApId lookup draft.mentions (draft.resolved w lookup) :=
    found_resolved
  unfold Draft.remoteRecipients
  rw [List.mem_append,hfound.remote,List.mem_filter,Option.mem_toList,Option.filter_eq_some_iff,
    mem_parent,hfound.mem,Bool.not_eq_true']
  constructor
  · rintro (⟨⟨hr,ha,hm⟩,hl⟩ | ⟨⟨hi,hv,hp,hr,ha,_⟩,hl⟩)
    · exact ⟨hr,ha,hl,.inl hm⟩
    · exact ⟨hr,ha,hl,.inr ⟨hv,hi,hp⟩⟩
  · intro h
    by_cases hm : ∃ mention ∈ draft.mentions, lookup mention = some r
    · exact .inl ⟨⟨h.named,h.other,hm⟩,h.remote⟩
    · obtain ⟨hv,hi,hp⟩ := h.addressed.resolve_left hm
      exact .inr ⟨⟨hi,hv,hp,h.named,h.other,fun hin => hm hin.2.2⟩,h.remote⟩

theorem mem_recipients {r : Text} (h : Remote w lookup draft r) :
    r ∈ draft.recipients w lookup := by
  have hmem := mem_remoteRecipients.mpr h
  unfold Draft.remoteRecipients at hmem
  unfold Draft.recipients
  rw [List.mem_append,found_resolved.remote] at hmem
  rw [List.mem_append]
  refine hmem.imp (fun hin => (List.mem_filter.mp hin).1) fun hin => ?_
  rw [Option.mem_toList,Option.filter_eq_some_iff] at hin
  exact Option.mem_toList.mpr hin.1

theorem step_createPost (h : step w (draft.op w lookup row) c₀ = some c₁) :
    fresh draft.input.objectApId c₀ = true ∧
      c₁ = createPost w draft.input (draft.resolved w lookup) row c₀ := by
  unfold Draft.op at h
  simp only [step,Option.ite_none_right_eq_some,Bool.and_eq_true,Option.some.injEq] at h
  exact ⟨h.1.2,h.2.symm⟩

theorem reached_createPost {r : Text} (h : step w (draft.op w lookup row) c₀ = some c₁) :
    r ∈ reached c₀ c₁ ↔ Remote w lookup draft r := by
  obtain ⟨_,rfl⟩ := step_createPost h
  rw [← mem_remoteRecipients,← List.mem_eraseDups]
  simp only [reached,createPost,enqueue,commit_deliveries,insertObject,List.drop_left,
    List.map_map]
  simp [Draft.remoteRecipients,Draft.parent]

theorem addressed_createPost (h : step w (draft.op w lookup row) c₀ = some c₁) :
    ∀ o ∈ c₁.objects, o.apId = draft.input.objectApId → Addressed w lookup draft o := by
  obtain ⟨hfresh,rfl⟩ := step_createPost h
  intro o ho hid
  simp only [createPost,enqueue_objects,commit_objects,insertObject] at ho
  rcases List.mem_append.mp ho with hold | hnew
  · exact absurd hid ((fresh_iff.mp hfresh).1 o hold)
  · obtain rfl := List.mem_singleton.mp hnew
    refine ⟨rfl,rfl,rfl,rfl,fun r hr hne => ?_⟩
    exact mem_mergeCc.mpr (.inr ⟨hr,hne⟩)

/-- Where a post is fanned out that is. -/
def wide (draft : Draft) : FanoutKind × Text :=
  match draft.input.community with
  | some community => (.community,community.apId)
  | none => (.followers,draft.input.actorApId)

theorem fannedOut_createPost (h : step w (draft.op w lookup row) c₀ = some c₁) :
    fannedOut c₀ c₁ = [wide draft] ∧ draft.input.visibility ≠ .direct ∧ Fanned draft row ∨
      fannedOut c₀ c₁ = [] ∧ ¬(draft.input.visibility ≠ .direct ∧ Fanned draft row) := by
  obtain ⟨_,rfl⟩ := step_createPost h
  simp only [fannedOut,createPost,enqueue_fanouts,commit_fanouts,insertObject,List.drop_left,
    wide,Fanned]
  by_cases hv : draft.input.visibility = .direct
  · simp only [hv,if_true]
    split <;> simp
  · simp only [hv,if_false]
    cases hc : draft.input.community with
    | none => simp [preparePersistAndFanout,hv]
    | some community =>
      cases row <;> simp [preparePersistAndFanoutToCommunity,hv]

theorem wide_of_addressed (h : Addressed w lookup draft post) :
    wide draft = match post.communityApId with
      | some community => (.community,community)
      | none => (.followers,draft.input.actorApId) := by
  unfold wide
  rw [h.community]
  cases draft.input.community <;> rfl

theorem fannedOut_patch (h : Addressed w lookup draft post) (edit : Edit) :
    fannedOut d (patch draft.input.actorApId post edit d) = [wide draft] := by
  rw [wide_of_addressed h]
  simp only [fannedOut,patch,commit_fanouts,List.drop_left]
  cases post.communityApId <;> rfl

theorem reached_patch (actorApId : Text) (edit : Edit) :
    reached d (patch actorApId post edit d) = [] := by
  simp [reached,patch]

theorem fannedOut_deletePost (h : Addressed w lookup draft post) :
    fannedOut d (deletePost w draft.input.actorApId post d) =
      if draft.input.visibility = .direct then [] else [wide draft] := by
  rw [wide_of_addressed h,← h.visibility]
  simp only [fannedOut,deletePost,enqueue_fanouts,commit_fanouts,List.drop_left]
  by_cases hv : post.visibility = .direct
  · simp [hv]
  · simp only [hv,if_false]
    cases post.communityApId <;> rfl

theorem reached_deletePost {r : Text} (actorApId : Text) :
    r ∈ reached d (deletePost w actorApId post d) ↔ r ∈ explicitRecipients w post d := by
  simp [reached,deletePost,enqueue]

theorem mem_explicitRecipients_iff {r : Text} (h : Addressed w lookup draft post)
    (hr : Remote w lookup draft r) : r ∈ explicitRecipients w post d ↔
      w.isSafeRemoteUrl r = true ∧ ((r ≠ publicUrl ∧ "/followers".toList.isSuffixOf r = false) ∨
        storedParent draft d = some r) := by
  have hcc := h.ccJson r (mem_recipients hr) hr.named
  have hparent : parentAuthor post d = storedParent draft d := by
    rw [parentAuthor,storedParent,h.reply]
  rw [explicitRecipients,List.mem_eraseDups,List.mem_append,List.mem_filter,Option.mem_toList,
    Option.filter_eq_some_iff,hparent]
  have hlength : 0 < r.length := List.length_pos_iff.mpr hr.named
  simp only [isExplicitRecipient,List.mem_append,hcc,or_true,true_and,hr.remote,hlength,
    decide_true,Bool.true_and,Bool.not_false,Bool.and_true,Bool.and_eq_true,decide_eq_true_eq,
    Bool.not_eq_true']
  tauto

theorem addressed_applyEdit (h : Addressed w lookup draft post) (edit : Edit) :
    Addressed w lookup draft (applyEdit edit post) :=
  ⟨h.author,h.reply,h.visibility,h.community,h.ccJson⟩

/-- Every row of the post is addressed as it was created. -/
def Rows (w : Site) (lookup : Text → Option Text) (draft : Draft) (d : Db) : Prop :=
  ∀ o ∈ d.objects, o.apId = draft.input.objectApId → Addressed w lookup draft o

theorem Rows.insert (h : Rows w lookup draft d) {o : Object}
    (hid : o.apId ≠ draft.input.objectApId) (he : e.objects = d.objects ++ [o]) :
    Rows w lookup draft e := by
  intro o' ho'
  rw [he,List.mem_append,List.mem_singleton] at ho'
  rcases ho' with hold | rfl
  · exact h o' hold
  · exact fun heq => absurd heq hid

theorem Rows.subset (h : Rows w lookup draft d) (he : ∀ o ∈ e.objects, o ∈ d.objects) :
    Rows w lookup draft e := fun o ho => h o (he o ho)

theorem Rows.step (h : Rows w lookup draft d) {op : Op} (hl : (machine w).step op d = some e)
    (hnew : op.created ≠ some draft.input.objectApId) : Rows w lookup draft e := by
  cases op with
  | createPost input mentions row =>
    simp only [machine,PostAudience.step,Option.ite_none_right_eq_some,Option.some.injEq] at hl
    exact h.insert (fun heq => hnew (congrArg some heq)) (by rw [← hl.2]; rfl)
  | createDm actorApId objectApId content recipient =>
    simp only [machine,PostAudience.step,Option.ite_none_right_eq_some,Option.some.injEq] at hl
    exact h.insert (fun heq => hnew (congrArg some heq)) (by rw [← hl.2]; rfl)
  | createChat actorApId objectApId content community =>
    simp only [machine,PostAudience.step,Option.ite_none_right_eq_some,Option.some.injEq] at hl
    exact h.insert (fun heq => hnew (congrArg some heq)) (by rw [← hl.2]; rfl)
  | createStory actorApId objectApId community =>
    simp only [machine,PostAudience.step,Option.ite_none_right_eq_some,Option.some.injEq] at hl
    exact h.insert (fun heq => hnew (congrArg some heq)) (by rw [← hl.2]; rfl)
  | patch actorApId postId edit =>
    simp only [machine,PostAudience.step,Option.ite_none_right_eq_some,
      Option.map_eq_some_iff] at hl
    obtain ⟨_,post,_,rfl⟩ := hl
    intro o ho hid
    obtain ⟨q,hq,⟨_,rfl⟩ | ⟨_,rfl⟩⟩ := Table.mem_update.mp ho
    · exact h o hq hid
    · exact addressed_applyEdit (h q hq hid) edit
  | delete actorApId postId =>
    simp only [machine,PostAudience.step,Option.ite_none_right_eq_some,
      Option.map_eq_some_iff] at hl
    obtain ⟨_,post,_,rfl⟩ := hl
    exact h.subset fun o ho => (List.mem_filter.mp ho).1
  | toolDelete actorApId postId =>
    simp only [machine,PostAudience.step,Option.ite_none_right_eq_some,
      Option.map_eq_some_iff] at hl
    obtain ⟨_,post,_,rfl⟩ := hl
    exact h.subset fun o ho => (List.mem_filter.mp ho).1
  | receive o =>
    simp only [machine,PostAudience.step,Option.ite_none_right_eq_some,Option.some.injEq] at hl
    exact h.insert (fun heq => hnew (congrArg some heq)) (by rw [← hl.2]; rfl)
  | remove apId =>
    simp only [machine,PostAudience.step,Option.some.injEq] at hl
    exact h.subset fun o ho => (List.mem_filter.mp (hl ▸ ho)).1

theorem patch_follows_iff (hc : step w (draft.op w lookup row) c₀ = some c₁)
    (h : Addressed w lookup draft post) (edit : Edit) :
    Follows c₀ c₁ d (patch draft.input.actorApId post edit d) ↔ MeetsUpdate w lookup draft row := by
  have hcreated := fannedOut_createPost hc
  constructor
  · intro hf
    have htarget := hf.target
    rw [fannedOut_patch h] at htarget
    have hopen : draft.input.visibility ≠ .direct ∧ Fanned draft row := by
      rcases hcreated with ⟨_,hopen⟩ | ⟨hnil,_⟩
      · exact hopen
      · rw [hnil] at htarget
        cases htarget
    refine ⟨hopen.1,fun r hr => ?_,hopen.2⟩
    have hin := hf.recipients r ((reached_createPost hc).mpr hr)
    rw [reached_patch] at hin
    cases hin
  · intro hm
    refine ⟨fun r hr => absurd ((reached_createPost hc).mp hr) (hm.nobody r),?_⟩
    rw [fannedOut_patch h]
    rcases hcreated with ⟨hwide,_⟩ | ⟨_,hno⟩
    · exact hwide.symm
    · exact absurd ⟨hm.open_,hm.fanned⟩ hno

theorem deletePost_follows_iff (hc : step w (draft.op w lookup row) c₀ = some c₁)
    (h : Addressed w lookup draft post) :
    Follows c₀ c₁ d (deletePost w draft.input.actorApId post d) ↔
      MeetsDelete w lookup draft row d := by
  have hreached : (∀ r ∈ reached c₀ c₁,
      r ∈ reached d (deletePost w draft.input.actorApId post d)) ↔
      ∀ r, Remote w lookup draft r → w.isSafeRemoteUrl r = true ∧
        ((r ≠ publicUrl ∧ "/followers".toList.isSuffixOf r = false) ∨
          storedParent draft d = some r) := by
    refine forall_congr' fun r => ?_
    rw [reached_createPost hc,reached_deletePost]
    exact forall_congr' fun hr => mem_explicitRecipients_iff h hr
  have htarget : fannedOut d (deletePost w draft.input.actorApId post d) = fannedOut c₀ c₁ ↔
      (draft.input.visibility ≠ .direct → Fanned draft row) := by
    rw [fannedOut_deletePost h]
    by_cases hv : draft.input.visibility = .direct
    · rcases fannedOut_createPost hc with ⟨_,hopen,_⟩ | ⟨hnil,_⟩
      · exact absurd hv hopen
      · simp [hv,hnil]
    · rcases fannedOut_createPost hc with ⟨hwide,_,hfanned⟩ | ⟨hnil,hno⟩
      · simp [hv,hwide,hfanned]
      · have hnot : ¬Fanned draft row := fun hf => hno ⟨hv,hf⟩
        simp [hv,hnil,hnot]
  exact ⟨fun hf => ⟨hreached.mp hf.recipients,htarget.mp hf.target⟩,
    fun hm => ⟨hreached.mpr hm.safe,htarget.mpr hm.fanned⟩⟩

/-- Of every run from the creation of a post, whose id no other object is given: the edits, and the
deletions by DELETE and by the tool, that find the post. -/
theorem post_recipients_iff (w : Site) (lookup : Text → Option Text) (draft : Draft)
    (row : Option Bool) (c₀ c₁ d e : Db) (post : Object) (postId : Text) (edit : Edit)
    (hc : step w (draft.op w lookup row) c₀ = some c₁)
    (hr : (machine w).ReachesBy (fun _ op _ => op.created ≠ some draft.input.objectApId) c₁ d)
    (hid : post.apId = draft.input.objectApId) :
    (target w d (.patch draft.input.actorApId postId edit) = some post →
      step w (.patch draft.input.actorApId postId edit) d = some e →
        (Follows c₀ c₁ d e ↔ MeetsUpdate w lookup draft row)) ∧
    (target w d (.delete draft.input.actorApId postId) = some post →
      step w (.delete draft.input.actorApId postId) d = some e →
        (Follows c₀ c₁ d e ↔ MeetsDelete w lookup draft row d)) ∧
    (target w d (.toolDelete draft.input.actorApId postId) = some post →
      step w (.toolDelete draft.input.actorApId postId) d = some e →
        (Follows c₀ c₁ d e ↔ MeetsDelete w lookup draft row d)) := by
  have hrows : Rows w lookup draft d :=
    hr.invariant (addressed_createPost hc) fun _ _ _ h hl hnew => h.step hl hnew
  refine ⟨fun ht hs => ?_,fun ht hs => ?_,fun ht hs => ?_⟩
  all_goals
    have haddressed := hrows post (target_mem ht) hid
    simp only [step,ht,Option.map_some,Option.ite_none_right_eq_some,Option.some.injEq] at hs
    obtain ⟨_,rfl⟩ := hs
  · exact patch_follows_iff hc haddressed edit
  · exact deletePost_follows_iff hc haddressed
  · exact deletePost_follows_iff hc haddressed

end created

section examples

def greeting : Draft := ⟨⟨['a'],['p'],['t'],none,none,none,.pub,none⟩,[],[['b']]⟩

def greeted : Db := createPost here greeting.input (greeting.resolved here some) none empty

def greetingRow : Object where
  apId := ['p']
  attributedTo := ['a']
  content := ['t']
  toJson := [publicUrl]
  ccJson := [followersOf ['a'],['b']]
  tags := [⟨"Mention".toList,['b'],['@','b']⟩]

theorem step_greeting : step here (greeting.op here some none) empty = some greeted := rfl

theorem target_greeting : target here greeted (.delete ['a'] ['p']) = some greetingRow := by
  decide +kernel

/-- The deletion of the post reaches `b`. -/
theorem post_recipients_greeting : ∃ e, step here (.delete ['a'] ['p']) greeted = some e ∧
    Follows empty greeted greeted e := by
  have hmeets : MeetsDelete here some greeting none greeted := by
    refine ⟨fun r hr => ⟨rfl,.inl ?_⟩,fun _ h => absurd h (by decide)⟩
    rcases hr.addressed with ⟨mention,hm,heq⟩ | ⟨_,hi,_⟩
    · obtain rfl := List.mem_singleton.mp hm
      obtain rfl := Option.some.inj heq
      decide
    · cases hi
  have hstep : step here (.delete ['a'] ['p']) greeted =
      some (deletePost here ['a'] greetingRow greeted) := by
    rw [step,target_greeting]
    rfl
  have hiff := (post_recipients_iff here some greeting none empty greeted greeted
    (deletePost here ['a'] greetingRow greeted) greetingRow ['p'] edit step_greeting
    (.refl greeted) rfl).2.1 target_greeting hstep
  exact ⟨_,hstep,hiff.mpr hmeets⟩

/-- An edit of the post does not reach `b`. -/
theorem edit_misses_mention : ∃ c₁ e, step here (greeting.op here some none) empty = some c₁ ∧
    step here (.patch ['a'] ['p'] edit) c₁ = some e ∧ ['b'] ∈ reached empty c₁ ∧
      ¬Follows empty c₁ c₁ e :=
  ⟨greeted,_,rfl,rfl,by decide +kernel,fun h => by
    have hin := h.recipients ['b'] (by decide +kernel)
    cases hin⟩

end examples

end Yurucommu.PostAudience
