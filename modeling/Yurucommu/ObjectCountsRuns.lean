import Yurucommu.ObjectCountsExact

/-!
The counts over whole runs: what each request remembers between its steps, and the runs in which
every object and every local actor has its count.
-/

set_option autoImplicit false

namespace Yurucommu.ObjectCounts

open Whatwg (Text)
open ActorIdentity (isSameActivityPubActor)

section pending

variable {w : Site} {d d' : Db} {c : Call} {i : Answer} {actor : Text}

def Pending (w : Site) (d : Db) : Stage → Prop
  | .createPost o => o.writer = .post ∧ o.recipients = [] ∧ o.replyCount = 0 ∧ Here d o.attributedTo
  | .createMessage o => (o.writer = .dm ∨ o.writer = .chat) ∧ o.inReplyTo = none ∧
      o.replyCount = 0 ∧ Here d o.attributedTo
  | .createStory o => (o.writer = .story ∧ o.type = .story ∧ o.visibility = .pub) ∧
      o.recipients = [] ∧ o.inReplyTo = none ∧ o.replyCount = 0 ∧ Here d o.attributedTo
  | .deletePost o | .deleteStory o => Still d o
  | .deleteMessage o => o.counted = false
  | .commit before after _ =>
      Remote w d after ∧ ∀ b, before = some b → b.writer = .inbound ∧ b.apId = after.apId
  | .createInboundStory o => Remote w d o ∧ o.inReplyTo = none
  | .deleteInbound o => ¬Here d o.attributedTo
  | .sweepObjects _ deletedAuthors => ∀ author ∈ deletedAuthors, ¬Here d author
  | .sweepCounts authors => ∀ author ∈ authors, ¬Here d author.1
  | _ => True

theorem Remote.evolves {o : ObjectRow} (h : Remote w d o) (he : Evolves d d') : Remote w d' o :=
  ⟨h.writer,h.site,fun hhere => h.elsewhere (he.here.mp hhere)⟩

theorem pending_evolves {stage : Stage} (h : Pending w d stage) (he : Evolves d d') :
    Pending w d' stage := by
  cases stage with
  | createPost o =>
    obtain ⟨hwriter,hrecipients,hcount,hhere⟩ := h
    exact ⟨hwriter,hrecipients,hcount,he.here.mpr hhere⟩
  | createMessage o =>
    obtain ⟨hwriter,hreply,hcount,hhere⟩ := h
    exact ⟨hwriter,hreply,hcount,he.here.mpr hhere⟩
  | createStory o =>
    obtain ⟨hwriter,hrecipients,hreply,hcount,hhere⟩ := h
    exact ⟨hwriter,hrecipients,hreply,hcount,he.here.mpr hhere⟩
  | deletePost o => exact Still.evolves h he
  | deleteStory o => exact Still.evolves h he
  | deleteMessage o => exact h
  | commit before after countPost => exact ⟨h.1.evolves he,h.2⟩
  | createInboundStory o => exact ⟨h.1.evolves he,h.2⟩
  | deleteInbound o => exact fun hhere => h (he.here.mp hhere)
  | sweepObjects chunks deletedAuthors =>
    exact fun author hmem hhere => h author hmem (he.here.mp hhere)
  | sweepCounts authors => exact fun author hmem hhere => h author hmem (he.here.mp hhere)
  | _ => trivial

structure SameOwner (o o' : ObjectRow) : Prop where
  apId : o'.apId = o.apId
  attributedTo : o'.attributedTo = o.attributedTo
  writer : o'.writer = o.writer

theorem SameOwner.refl (o : ObjectRow) : SameOwner o o := ⟨rfl,rfl,rfl⟩

theorem SameOwner.trans {a b c : ObjectRow} (h : SameOwner a b) (h' : SameOwner b c) :
    SameOwner a c :=
  ⟨h'.apId.trans h.apId,h'.attributedTo.trans h.attributedTo,h'.writer.trans h.writer⟩

theorem sameOwner_project {source o : ObjectRow} {patch : Patch}
    (h : projectAdmittedNotePatch w actor source patch = some o) : SameOwner source o := by
  unfold projectAdmittedNotePatch at h
  split at h
  · cases h
  · split at h
    · split at h
      · cases h
      · cases h
        exact ⟨rfl,rfl,rfl⟩
    · split at h
      · cases h
      · split at h
        · cases h
          exact ⟨rfl,rfl,rfl⟩
        · cases h
          exact ⟨rfl,rfl,rfl⟩

theorem sameOwner_fold (patches : List Patch) : ∀ source : ObjectRow,
    SameOwner source (foldAdmittedNoteUpdates w actor patches source) := by
  induction patches with
  | nil => exact .refl
  | cons patch patches ih =>
    intro source
    have hfirst : SameOwner source
        ((projectAdmittedNotePatch w actor source patch).getD source) := by
      cases hproject : projectAdmittedNotePatch w actor source patch with
      | none => exact .refl source
      | some o => exact sameOwner_project hproject
    exact hfirst.trans (ih _)

theorem sameOwner_repair (admitted direct : Bool) (recipient : Text) (o : ObjectRow) :
    SameOwner o (repairRecipient admitted direct recipient o) := by
  unfold repairRecipient
  split <;> exact ⟨rfl,rfl,rfl⟩

theorem SameOwner.remote {o o' : ObjectRow} (h : SameOwner o o') (ho : Remote w d o) :
    Remote w d o' := by
  refine ⟨h.writer.trans ho.writer,?_,?_⟩
  · rw [h.apId]
    exact ho.site
  · rw [h.attributedTo]
    exact ho.elsewhere

theorem find_row {objects : List ObjectRow} {q : ObjectRow → Bool} {o : ObjectRow}
    (h : objects.find? q = some o) : o ∈ objects ∧ q o = true :=
  ⟨List.mem_of_find?_eq_some h,List.find?_some h⟩

theorem Sound.remote (h : Sound w d) {o : ObjectRow} (ho : o ∈ d.objects)
    (helsewhere : ¬Here d o.attributedTo) : Remote w d o := by
  have hproper := h.rows o ho
  have hlocal : o.isLocal = false := by
    by_contra htrue
    exact helsewhere (hproper.here.mp (by simpa using htrue))
  refine ⟨by simpa [ObjectRow.isLocal] using hlocal,?_,helsewhere⟩
  rw [← hproper.site]
  exact hlocal

theorem Sound.still (h : Sound w d) {o : ObjectRow} (ho : o ∈ d.objects)
    (hhere : Here d o.attributedTo) : Still d o where
  generated := (h.rows o ho).generated ((h.rows o ho).here.mpr hhere)
  row o' ho' hid := by
    rw [h.unique ho' ho hid]
    exact ⟨rfl,rfl,rfl⟩

theorem pending_readOwn (h : Sound w d) (hhere : Here d actor) (next : ObjectRow → Stage)
    (hnext : ∀ o, Still d o → Pending w d (next o)) (ids : List Text) :
    Pending w d (readOwn next ids actor d) := by
  unfold readOwn
  cases hfind : d.objects.find? fun o => o.apId ∈ ids with
  | none => trivial
  | some o =>
    dsimp only
    split
    · rename_i howner
      exact hnext o (h.still (find_row hfind).1 (howner ▸ hhere))
    · trivial

theorem pending_readMessage (next : ObjectRow → Stage) (scope : ObjectRow → Bool)
    (hnext : ∀ o ∈ d.objects, scope o = true → Pending w d (next o)) (manages : Bool)
    (apId : Text) : Pending w d (readMessage next scope manages actor apId d) := by
  unfold readMessage
  cases hfind : d.objects.find? fun o => o.apId = apId && scope o with
  | none => trivial
  | some o =>
    obtain ⟨ho,htrue⟩ := find_row hfind
    simp only [Bool.and_eq_true] at htrue
    dsimp only
    split
    · exact hnext o ho htrue.2
    · trivial

theorem counted_of_group (h : Sound w d) {o : ObjectRow} {community : Text} (ho : o ∈ d.objects)
    (hscope : groupMessageScope community o = true) : o.counted = false := by
  simp only [groupMessageScope,Bool.and_eq_true,List.any_eq_true,decide_eq_true_eq] at hscope
  obtain ⟨_,r,hr,_,htype⟩ := hscope
  exact (h.rows o ho).audience r hr htype

theorem counted_of_dm (h : Sound w d) {o : ObjectRow} (ho : o ∈ d.objects)
    (hscope : ownedDmScope o = true) : o.counted = false := by
  simp only [ownedDmScope,Bool.and_eq_true,decide_eq_true_eq] at hscope
  exact (h.rows o ho).counted_of_direct hscope.1.1.1

/-- Who signs is nobody here, under no spelling. -/
def Signer (w : Site) (d : Db) (actor : Text) : Prop :=
  ¬Here d actor ∧ ∀ apId, Here d apId → isSameActivityPubActor w.platform apId actor = false

theorem Signer.remote (h : Signer w d actor) (hs : Sound w d) {o : ObjectRow} (ho : o ∈ d.objects)
    (hsame : isSameActivityPubActor w.platform o.attributedTo actor = true) : Remote w d o := by
  refine hs.remote ho fun hhere => ?_
  rw [h.2 _ hhere] at hsame
  cases hsame

theorem pending_commit {before o : ObjectRow} {countPost : Bool} (hbefore : Remote w d before)
    (h : SameOwner before o) : Pending w d (.commit (some before) o countPost) := by
  refine ⟨h.remote hbefore,?_⟩
  intro b hb
  cases hb
  exact ⟨hbefore.writer,h.apId.symm⟩

theorem pending_readCreate (h : Sound w d) (hsigner : Signer w d actor) (apId content : Text)
    (inReplyTo : Option Text) (addressing : Addressing) (recipient : Text) :
    Pending w d (readCreate w i actor apId content inReplyTo addressing recipient d) := by
  unfold readCreate
  dsimp only
  split
  · trivial
  · rename_i hgates
    simp only [Bool.or_eq_true,not_or,Bool.not_eq_true] at hgates
    cases hfind : findObject apId d with
    | none =>
      dsimp only
      refine ⟨(sameOwner_fold _ _).remote ⟨rfl,hgates.1.2,hsigner.1⟩,?_⟩
      intro b hb
      cases hb
    | some before =>
      dsimp only
      split
      · rename_i hretained
        simp only [retained,Bool.and_eq_true] at hretained
        exact pending_commit (hsigner.remote h (find_row hfind).1 hretained.2)
          ((sameOwner_repair _ _ _ _).trans (sameOwner_fold _ _))
      · trivial

theorem pending_readGroupCreate (h : Sound w d) (hsigner : Signer w d actor)
    (apId content community : Text) :
    Pending w d (readGroupCreate w i actor apId content community d) := by
  unfold readGroupCreate
  split
  · trivial
  · rename_i hgates
    simp only [Bool.or_eq_true,not_or,Bool.not_eq_true] at hgates
    cases hfind : findObject apId d with
    | none =>
      dsimp only
      refine ⟨(sameOwner_fold _ _).remote ⟨rfl,hgates.2,hsigner.1⟩,?_⟩
      intro b hb
      cases hb
    | some before =>
      dsimp only
      split
      · rename_i hretained
        simp only [retained,Bool.and_eq_true] at hretained
        have howner : SameOwner before { before with recipients := [⟨community,.audience⟩] } :=
          ⟨rfl,rfl,rfl⟩
        exact pending_commit (hsigner.remote h (find_row hfind).1 hretained.1.1.2)
          (howner.trans (sameOwner_fold _ _))
      · trivial

theorem pending_readCreateStory (hsigner : Signer w d actor) (apId : Text) :
    Pending w d (readCreateStory w i actor apId d) := by
  unfold readCreateStory
  cases hlocal : w.isLocal apId with
  | true => trivial
  | false =>
    rw [if_neg (by simp)]
    cases findObject apId d with
    | some o => trivial
    | none =>
      dsimp only
      split
      · exact ⟨⟨rfl,hlocal,hsigner.1⟩,rfl⟩
      · trivial

theorem pending_readUpdate (h : Sound w d) (hsigner : Signer w d actor) (apId : Text) :
    Pending w d (readUpdate w i actor apId d) := by
  unfold readUpdate
  cases hfind : findObject apId d with
  | none => trivial
  | some before =>
    dsimp only
    split
    · rename_i hgates
      simp only [Bool.and_eq_true] at hgates
      exact pending_commit (hsigner.remote h (find_row hfind).1 hgates.2) (sameOwner_fold _ _)
    · trivial

theorem pending_readDelete (h : Sound w d) (hsigner : Signer w d actor) (apId : Text) :
    Pending w d (readDelete w actor apId d) := by
  unfold readDelete
  cases hfind : findObject apId d with
  | none => trivial
  | some o =>
    dsimp only
    split
    · rename_i hsame
      exact (hsigner.remote h (find_row hfind).1 hsame).elsewhere
    · trivial

theorem pending_read (h : Sound w d) {request : Request}
    (hhere : request.inbound = false → Here d actor)
    (hsigner : request.inbound = true → Signer w d actor) :
    Pending w d (read w i actor d request) := by
  unfold read
  cases request with
  | createPost content inReplyTo communityApId visibility =>
    dsimp only
    split
    · exact ⟨rfl,rfl,rfl,hhere rfl⟩
    · trivial
  | createDm content recipient =>
    dsimp only
    split
    · exact ⟨.inl rfl,rfl,rfl,hhere rfl⟩
    · trivial
  | createChat content community =>
    dsimp only
    split
    · exact ⟨.inr rfl,rfl,rfl,hhere rfl⟩
    · trivial
  | createStory communityApId =>
    dsimp only
    split
    · exact ⟨⟨rfl,rfl,rfl⟩,rfl,rfl,rfl,hhere rfl⟩
    · trivial
  | editPost ids content =>
    refine pending_readOwn h (hhere rfl) _ ?_ ids
    exact fun _ _ => trivial
  | editDm apId content =>
    refine pending_readMessage _ _ ?_ _ _
    exact fun _ _ _ => trivial
  | editChat community apId content =>
    dsimp only
    split
    · refine pending_readMessage _ _ ?_ _ _
      exact fun _ _ _ => trivial
    · trivial
  | deletePost ids =>
    refine pending_readOwn h (hhere rfl) _ ?_ ids
    exact fun _ hstill => hstill
  | deleteDm apId =>
    refine pending_readMessage _ _ ?_ _ _
    exact fun _ ho hscope => counted_of_dm h ho hscope
  | deleteChat community apId =>
    dsimp only
    split
    · refine pending_readMessage _ _ ?_ _ _
      exact fun _ ho hscope => counted_of_group h ho hscope
    · trivial
  | deleteStory apId =>
    refine pending_readOwn h (hhere rfl) _ ?_ [apId]
    exact fun _ hstill => hstill
  | cleanupExpiredStories =>
    intro author hmem
    cases hmem
  | reject sender =>
    dsimp only
    split <;> trivial
  | handleCreate apId content inReplyTo addressing recipient =>
    exact pending_readCreate h (hsigner rfl) apId content inReplyTo addressing recipient
  | handleGroupCreate apId content community =>
    exact pending_readGroupCreate h (hsigner rfl) apId content community
  | handleCreateStory apId => exact pending_readCreateStory (hsigner rfl) apId
  | handleUpdate apId => exact pending_readUpdate h (hsigner rfl) apId
  | handleDelete apId => exact pending_readDelete h (hsigner rfl) apId

end pending

section steps

variable {w : Site} {d : Db} {c : Call} {i : Answer}

theorem evolves_createPost {o : ObjectRow} {apId : Text} (ho : o.apId = apId)
    (hnew : apId ∉ d.generated) : Evolves d (createPost w o (generate apId d)) := by
  unfold createPost
  split
  · exact evolves_generate apId d
  · refine (rewrites_recomputeAll _ _).before ?_
    rw [← ho] at hnew
    split
    · exact evolves_insert d (evolves_generate apId d) hnew
    · exact evolves_insert d ((rewrites_actors _ _ _).before (evolves_generate apId d)) hnew

theorem evolves_createMessage {o : ObjectRow} {apId : Text} (ho : o.apId = apId)
    (hnew : apId ∉ d.generated) : Evolves d (createMessage o (generate apId d)) := by
  unfold createMessage
  rw [← ho] at hnew
  split
  · exact evolves_generate apId d
  · exact evolves_insert d (evolves_generate apId d) hnew

theorem evolves_createStory {o : ObjectRow} {apId : Text} (ho : o.apId = apId)
    (hnew : apId ∉ d.generated) : Evolves d (createStory o (generate apId d)) := by
  unfold createStory
  rw [← ho] at hnew
  split
  · exact evolves_generate apId d
  · exact (rewrites_actors _ _ _).before (evolves_insert d (evolves_generate apId d) hnew)

theorem rewrites_deletePost (o : ObjectRow) (d : Db) : Rewrites d (deletePost o d) := by
  unfold deletePost
  split
  · exact (rewrites_delete _ d).trans (rewrites_recomputeAll _ _)
  · exact ((rewrites_actors _ _ d).trans (rewrites_delete _ _)).trans (rewrites_recomputeAll _ _)

theorem rewrites_deleteStory (o : ObjectRow) (d : Db) : Rewrites d (deleteStory o d) :=
  (rewrites_actors _ _ d).trans (rewrites_delete _ _)

theorem rewrites_deleteMessage (o : ObjectRow) (d : Db) : Rewrites d (deleteMessage o d) := by
  unfold deleteMessage
  split
  · exact rewrites_delete _ d
  · exact .refl d

theorem rewrites_editMessage (o : ObjectRow) (content : Text) (d : Db) :
    Rewrites d (editMessage o content d) := by
  unfold editMessage
  split
  · exact rewrites_setContent _ _ d
  · exact .refl d

theorem rewrites_deletePage (conversation sender viewer : Text) (page : List Text) (d : Db) :
    Rewrites d (deletePage conversation sender viewer page d).1 := by
  unfold deletePage
  split
  · exact rewrites_delete _ d
  · exact .refl d

theorem rewrites_deleteInbound (o : ObjectRow) (d : Db) : Rewrites d (deleteInbound o d) := by
  unfold deleteInbound
  split
  · exact ((rewrites_actors _ _ d).trans (rewrites_delete _ _)).trans (rewrites_recomputeAll _ _)
  · exact .refl d

theorem Remote.notGenerated {o : ObjectRow} (h : Remote w d o) (hs : Sound w d) :
    o.apId ∉ d.generated := by
  intro hmem
  have hlocal := hs.generated o.apId hmem
  rw [h.site] at hlocal
  cases hlocal

theorem evolves_commit {before : Option ObjectRow} {after : ObjectRow} (countPost : Bool)
    (hs : Sound w d) (hremote : Remote w d after) :
    Evolves d (commitNoteProjection before after countPost d) := by
  have hnew := hremote.notGenerated hs
  cases before with
  | none =>
    simp only [commitNoteProjection]
    split
    · exact .refl d
    · refine (rewrites_recomputeAll _ _).before ?_
      split
      · exact evolves_insert d (rewrites_actors _ _ d).evolves hnew
      · exact evolves_insert d (.refl d) hnew
  | some before =>
    simp only [commitNoteProjection]
    split
    · have hvalues : Evolves d { d with
          objects := Table.update (fun o => o.apId = after.apId) (values after) d.objects } := by
        refine ⟨rfl,fun _ hmem => hmem,?_⟩
        intro o'' ho''
        obtain ⟨o',ho',⟨_,rfl⟩ | ⟨_,rfl⟩⟩ := Table.mem_update.mp ho''
        · exact .inl ⟨o'',ho',.refl o''⟩
        · exact .inr hnew
      exact (rewrites_recomputeAll _ _).before hvalues
    · exact .refl d

theorem evolves_createInboundStory {o : ObjectRow} (hs : Sound w d) (hremote : Remote w d o) :
    Evolves d (createInboundStory o d) := by
  unfold createInboundStory
  cases hany : d.objects.any fun o' => o'.apId = o.apId with
  | true =>
    rw [Table.insertIgnore_of_any _ hany]
    exact .refl d
  | false =>
    rw [Table.insertIgnore_of_not_any _ hany]
    exact evolves_insert d (.refl d) (hremote.notGenerated hs)

theorem allowed_generates (h : allowed w i d c = true) (hstage : c.stage.generates = true) :
    w.isLocal i.id = true ∧ i.id ∉ d.generated := by
  simp only [allowed,hstage,Bool.and_eq_true,Bool.or_eq_true,Bool.not_true,Bool.false_eq_true,
    false_or] at h
  exact ⟨h.2.1,by simpa using h.2.2⟩

theorem evolves_advance (hs : Sound w d) (hp : Pending w d c.stage)
    (hallowed : allowed w i d c = true) : Evolves d (advance w i c d).1 := by
  have hid := allowed_generates hallowed
  unfold advance
  cases hstage : c.stage with
  | start | repairStory | done | editPost | editMessage =>
    first
    | exact .refl d
    | exact (rewrites_recompute _ d).evolves
    | exact (rewrites_setContent _ _ d).evolves
    | exact (rewrites_editMessage _ _ d).evolves
  | createPost o => exact evolves_createPost rfl (hid (by rw [hstage]; rfl)).2
  | createMessage o => exact evolves_createMessage rfl (hid (by rw [hstage]; rfl)).2
  | createStory o => exact evolves_createStory rfl (hid (by rw [hstage]; rfl)).2
  | deletePost o => exact (rewrites_deletePost o d).evolves
  | deleteMessage o => exact (rewrites_deleteMessage o d).evolves
  | deleteStory o => exact (rewrites_deleteStory o d).evolves
  | sweepObjects chunks deletedAuthors =>
    cases chunks with
    | nil => exact .refl d
    | cons chunk chunks => exact (rewrites_delete _ d).evolves
  | sweepCounts authors =>
    cases authors with
    | nil => exact .refl d
    | cons author rest => exact (rewrites_actors _ _ d).evolves
  | selectRejected conversation cursor =>
    dsimp only
    split <;> exact .refl d
  | deleteRejected conversation page => exact (rewrites_deletePage _ _ _ page d).evolves
  | commit before after countPost =>
    rw [hstage] at hp
    exact evolves_commit countPost hs hp.1
  | createInboundStory o =>
    rw [hstage] at hp
    exact evolves_createInboundStory hs hp.1
  | deleteInbound o => exact (rewrites_deleteInbound o d).evolves

theorem pending_advance (hs : Sound w d) (hp : Pending w d c.stage)
    (hhere : c.request.inbound = false → Here d c.actor)
    (hsigner : c.request.inbound = true → Signer w d c.actor)
    (hchunk : ∀ chunk chunks deletedAuthors,
      c.stage = .sweepObjects (chunk :: chunks) deletedAuthors →
        ∀ o ∈ d.objects, o.apId ∈ chunk → ¬Here d o.attributedTo) :
    Pending w d (advance w i c d).2 := by
  unfold advance
  cases hstage : c.stage with
  | start => exact pending_read hs hhere hsigner
  | sweepObjects chunks deletedAuthors =>
    rw [hstage] at hp
    cases chunks with
    | nil =>
      intro author hmem
      obtain ⟨x,hx,rfl⟩ := List.mem_map.mp hmem
      exact hp x (List.mem_of_mem_filter (List.mem_dedup.mp hx))
    | cons chunk chunks =>
      intro author hmem
      rcases List.mem_append.mp hmem with hold | hnew
      · exact hp author hold
      · obtain ⟨o,ho,rfl⟩ := List.mem_map.mp hnew
        obtain ⟨hmem,hid⟩ := List.mem_filter.mp ho
        exact hchunk chunk chunks deletedAuthors hstage o hmem (by simpa using hid)
  | sweepCounts authors =>
    rw [hstage] at hp
    cases authors with
    | nil => trivial
    | cons author rest => exact fun x hx => hp x (List.mem_cons_of_mem _ hx)
  | selectRejected conversation cursor =>
    dsimp only
    split <;> trivial
  | deleteRejected conversation page =>
    dsimp only [deletePage]
    split
    · dsimp only
      split <;> trivial
    · trivial
  | _ => trivial

theorem made_of_pending {o : ObjectRow} (hwriter : o.writer ≠ .inbound)
    (hhere : Here d o.attributedTo) (hcount : o.replyCount = 0) (hlocal : w.isLocal i.id = true)
    (hno : ∀ o' ∈ d.objects, o'.inReplyTo ≠ some i.id)
    (haudience : ∀ r ∈ o.recipients, r.type = .audience → o.counted = false)
    (hstory : o.writer = .story → o.type = .story ∧ o.visibility = .pub) :
    Made w (generate i.id d) { o with apId := i.id } where
  writer := by simpa [ObjectRow.isLocal] using hwriter
  site := hlocal
  generated := List.mem_cons_self
  here := hhere
  replyCount := hcount
  noReplies := hno
  audience := haudience
  story := hstory

/-- A step that meets the condition keeps both equations. -/
theorem Kept.advance (h : Kept w d) (hp : Pending w d c.stage) (hallowed : allowed w i d c = true)
    (hm : MeetsAt d c i) : Kept w (advance w i c d).1 := by
  have hid := allowed_generates hallowed
  unfold ObjectCounts.advance
  unfold MeetsAt at hm
  cases hstage : c.stage with
  | start => exact h
  | createPost o =>
    rw [hstage] at hp hm
    obtain ⟨hwriter,hrecipients,hcount,hhere⟩ := hp
    obtain ⟨hlocal,_⟩ := hid (by rw [hstage]; rfl)
    refine (kept_generate h hlocal).createPost
      (made_of_pending (by simp [hwriter]) hhere hcount hlocal hm ?_ ?_) hwriter
    · simp [hrecipients]
    · simp [hwriter]
  | createMessage o =>
    rw [hstage] at hp hm
    obtain ⟨hwriter,hreply,hcount,hhere⟩ := hp
    obtain ⟨hlocal,_⟩ := hid (by rw [hstage]; rfl)
    have hcounted : o.counted = false := by
      unfold ObjectRow.counted
      rcases hwriter with hdm | hchat
      · rw [hdm]
      · rw [hchat]
    refine (kept_generate h hlocal).createMessage
      (made_of_pending ?_ hhere hcount hlocal hm (fun _ _ _ => hcounted) ?_) hcounted hreply
    · rcases hwriter with hdm | hchat
      · simp [hdm]
      · simp [hchat]
    · rcases hwriter with hdm | hchat
      · simp [hdm]
      · simp [hchat]
  | createStory o =>
    rw [hstage] at hp hm
    obtain ⟨hwriter,hrecipients,hreply,hcount,hhere⟩ := hp
    obtain ⟨hlocal,_⟩ := hid (by rw [hstage]; rfl)
    refine (kept_generate h hlocal).createStory
      (made_of_pending (by simp [hwriter.1]) hhere hcount hlocal hm ?_ (fun _ => hwriter.2))
      hwriter.1 hreply
    simp [hrecipients]
  | editPost apId content => exact h.setContent apId content
  | editMessage message content => exact h.editMessage content
  | deletePost post =>
    rw [hstage] at hp hm
    exact h.deletePost hp hm
  | deleteMessage message =>
    rw [hstage] at hp hm
    exact h.deleteMessage hp hm
  | deleteStory story =>
    rw [hstage] at hp hm
    exact h.deleteStory hp hm.1 hm.2
  | sweepObjects chunks deletedAuthors =>
    rw [hstage] at hm
    cases chunks with
    | nil => exact h
    | cons chunk chunks =>
      refine h.delete hm.1 fun o ho hchunk => uncounted_of_elsewhere ?_
      exact hm.2 o ho (by simpa using hchunk)
  | sweepCounts authors =>
    rw [hstage] at hp
    cases authors with
    | nil => exact h
    | cons author rest =>
      have hsame := subtractPostCount_elsewhere (hp author List.mem_cons_self) author.2
      dsimp only
      rw [hsame]
      exact h
  | selectRejected conversation cursor =>
    dsimp only
    split <;> exact h
  | deleteRejected conversation page =>
    rw [hstage] at hm
    exact h.deletePage hm
  | commit before after countPost =>
    rw [hstage] at hp
    cases before with
    | none => exact h.commitCreate hp.1 countPost
    | some before =>
      obtain ⟨hwriter,hsame⟩ := hp.2 before rfl
      exact h.commitUpdate hp.1 hwriter hsame countPost
  | repairStory apId => exact h.recompute apId
  | createInboundStory o =>
    rw [hstage] at hp
    exact h.createInboundStory hp.1 hp.2
  | deleteInbound o =>
    rw [hstage] at hp
    exact h.deleteInbound hp
  | done => exact h

end steps

section run

variable {w : Site} {s₀ s t : Pool} {l : Label}

theorem step_call {p : Nat} {i : Answer} : (machine w).step (.act p i) s = some t ↔
    allowed w i s.store (s.thread p) = true ∧
      t = ⟨(work w i p s.store (s.thread p)).1,
        Function.update s.thread p (work w i p s.store (s.thread p)).2⟩ :=
  Threads.guarded_step_act

/-- What holds of every state of a run whose steps meet the condition. -/
structure Holds (w : Site) (s₀ s : Pool) : Prop where
  kept : Kept w s.store
  here : ∀ apId, Here s.store apId ↔ Here s₀.store apId
  call : ∀ p, (s.thread p).actor = (s₀.thread p).actor ∧
    (s.thread p).request = (s₀.thread p).request
  pending : ∀ p, Pending w s.store (s.thread p).stage

theorem Start.holds (h : Start w s₀) : Holds w s₀ s₀ where
  kept := ⟨⟨h.keys,h.rows,h.generated⟩,h.exact⟩
  here _ := Iff.rfl
  call _ := ⟨rfl,rfl⟩
  pending p := by
    rw [h.start p]
    trivial

theorem work_cases {i : Answer} {p : Nat} {d : Db} {c : Call} :
    ((work w i p d c).1 = d ∧ (work w i p d c).2.stage = .done ∨ i.fails = false ∧
      (work w i p d c).1 = (advance w i c d).1 ∧ (work w i p d c).2.stage = (advance w i c d).2) ∧
      (work w i p d c).2.actor = c.actor ∧ (work w i p d c).2.request = c.request := by
  unfold work
  cases i.fails with
  | true => exact ⟨.inl ⟨rfl,rfl⟩,rfl,rfl⟩
  | false => exact ⟨.inr ⟨rfl,rfl,rfl⟩,rfl,rfl⟩

theorem Holds.step (h₀ : Start w s₀) (h : Holds w s₀ s) (hl : (machine w).step l s = some t)
    (hm : Meets s l) : Holds w s₀ t := by
  cases l with
  | env e => cases e
  | act p i =>
    obtain ⟨hallowed,rfl⟩ := step_call.mp hl
    obtain ⟨hwork,hactor,hrequest⟩ := work_cases (w := w) (i := i) (p := p) (d := s.store)
      (c := s.thread p)
    obtain ⟨hcall,hasked⟩ := h.call p
    have hhere : (s.thread p).request.inbound = false → Here s.store (s.thread p).actor := by
      rw [hcall,hasked,h.here]
      exact h₀.requester p
    have hsigner : (s.thread p).request.inbound = true → Signer w s.store (s.thread p).actor := by
      rw [hcall,hasked]
      intro hinbound
      obtain ⟨hnot,hother⟩ := h₀.signer p hinbound
      exact ⟨fun hmem => hnot ((h.here _).mp hmem),
        fun apId hmem => hother apId ((h.here _).mp hmem)⟩
    have hkept : Kept w (work w i p s.store (s.thread p)).1 ∧
        Evolves s.store (work w i p s.store (s.thread p)).1 ∧
        Pending w s.store (work w i p s.store (s.thread p)).2.stage := by
      rcases hwork with ⟨hstore,hstage⟩ | ⟨hfails,hstore,hstage⟩
      · rw [hstore,hstage]
        exact ⟨h.kept,.refl _,trivial⟩
      · have hmeets := hm p i rfl hfails
        rw [hstore,hstage]
        refine ⟨h.kept.advance (h.pending p) hallowed hmeets,
          evolves_advance h.kept.sound (h.pending p) hallowed,
          pending_advance h.kept.sound (h.pending p) hhere hsigner ?_⟩
        intro chunk chunks deletedAuthors hsweep
        unfold MeetsAt at hmeets
        rw [hsweep] at hmeets
        exact hmeets.2
    obtain ⟨hkept,hevolves,hpending⟩ := hkept
    refine ⟨hkept,?_,?_,?_⟩
    · exact fun apId => hevolves.here.trans (h.here apId)
    · intro q
      by_cases hq : q = p
      · subst hq
        simp only [Function.update_self]
        exact ⟨hactor.trans hcall,hrequest.trans hasked⟩
      · simp only [Function.update_of_ne hq]
        exact h.call q
    · intro q
      by_cases hq : q = p
      · subst hq
        simp only [Function.update_self]
        exact pending_evolves hpending hevolves
      · simp only [Function.update_of_ne hq]
        exact pending_evolves (h.pending q) hevolves

/-- In every run whose steps meet the condition every reply count is the number of the replies,
and every post count the number of the posts and Stories that were made here. -/
theorem objects_counted (h₀ : Start w s₀)
    (hr : (machine w).ReachesBy (fun s l _ => Meets s l) s₀ s) : Exact s.store := by
  have hholds := hr.invariant (P := Holds w s₀) h₀.holds fun a l b ha hl hm => ha.step h₀ hl hm
  exact hholds.kept.exact

end run

section chat

def here : Site where
  platform := ActorIdentity.hostless
  isLocal _ := true
  getConversationId _ _ := []

def alice : Text := "alice".toList
def town : Text := "town".toList

def post : ObjectRow := { newPost alice [] none none .pub with apId := "1".toList }

def message : ObjectRow := { newChat alice [] town with apId := "2".toList }

def posted : Db := ⟨[⟨alice,1⟩],[post],["1".toList]⟩

def chatting : Pool :=
  ⟨posted,fun p =>
    if p = 0 then ⟨alice,.createChat [] town,.start⟩
    else ⟨alice,.deletePost ["2".toList],.start⟩⟩

theorem here_posted : Here posted alice := ⟨⟨alice,1⟩,List.mem_cons_self,rfl⟩

theorem proper_post : Proper here posted post where
  site := rfl
  generated _ := List.mem_cons_self
  here := ⟨fun _ => here_posted,fun _ => rfl⟩
  audience r hr := by cases hr
  story h := by cases h

theorem start_chatting : Start here chatting where
  keys := by decide
  exact := by
    refine ⟨?_,?_⟩
    · intro o ho
      have hmem : o = post := by simpa [chatting,posted] using ho
      subst hmem
      decide
    · intro a ha
      have hmem : a = ⟨alice,1⟩ := by simpa [chatting,posted] using ha
      subst hmem
      decide
  rows o ho := by
    have hmem : o = post := by simpa [chatting,posted] using ho
    subst hmem
    exact proper_post
  generated _ _ := rfl
  start p := by
    simp only [chatting]
    split <;> rfl
  requester p _ := by
    have hactor : (chatting.thread p).actor = alice := by
      simp only [chatting]
      split <;> rfl
    rw [hactor]
    exact here_posted
  signer p h := by
    simp only [chatting] at h
    split at h <;> cases h

/-- The message is written and stays. -/
theorem objects_counted_chatting : Exact ⟨[⟨alice,1⟩],[post,message],["2".toList,"1".toList]⟩ := by
  have hread : (machine here).step (.act 0 {}) chatting =
      some ⟨posted,Function.update chatting.thread 0
        ⟨alice,.createChat [] town,.createMessage (newChat alice [] town)⟩⟩ := rfl
  have hwrite : (machine here).step (.act 0 { id := "2".toList })
      ⟨posted,Function.update chatting.thread 0
        ⟨alice,.createChat [] town,.createMessage (newChat alice [] town)⟩⟩ =
          some ⟨⟨[⟨alice,1⟩],[post,message],["2".toList,"1".toList]⟩,
            Function.update (Function.update chatting.thread 0
              ⟨alice,.createChat [] town,.createMessage (newChat alice [] town)⟩) 0
                ⟨alice,.createChat [] town,.done⟩⟩ := rfl
  have hreach :=
    ((Machine.ReachesBy.refl (C := fun s l _ => Meets s l) chatting).snoc hread ?_).snoc hwrite ?_
  · exact objects_counted start_chatting hreach
  · intro p i hact _
    cases hact
    trivial
  · intro p i hact _
    cases hact
    intro o ho
    have hmem : o = post := by simpa [posted] using ho
    subst hmem
    decide

/-- The delete of a message that was never counted takes the post out of alice's count. -/
theorem chat_deleted_as_post : ¬∀ (w : Site) (s₀ s : Pool), Start w s₀ → (machine w).Reaches s₀ s →
    Exact s.store := by
  intro h
  have hrun : ((machine here).run
      [.act 0 {},.act 0 { id := "2".toList },.act 1 {},.act 1 {}] chatting).map (·.store) =
        some ⟨[⟨alice,0⟩],[post],["2".toList,"1".toList]⟩ := rfl
  obtain ⟨s,hs,hstore⟩ := Option.map_eq_some_iff.mp hrun
  have hexact := (h here chatting s start_chatting (.of_run hs)).2
  rw [hstore] at hexact
  have hcount := hexact _ List.mem_cons_self
  revert hcount
  decide

end chat

end Yurucommu.ObjectCounts
