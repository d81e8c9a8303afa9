import Yurucommu.PostAudience

/-!
Which edits and deletions stay in the audience of the object, from every state that the writers
can bring about.
-/

set_option autoImplicit false

namespace Yurucommu.PostAudience

open Whatwg (Text)

section broadcasts

variable {w : Site} {d e : Db} {o post : Object} {x : Fanout} {a : Activity}

def Broadcasts (o : Object) (x : Fanout) : Prop :=
  x.kind = .followers ∧ x.activity.type = .create ∧ x.activity.objectApId = o.apId ∧
    x.targetApId = o.attributedTo

def broadcast (o : Object) (d : Db) : Prop := ∃ x ∈ d.fanouts, Broadcasts o x

/-- An object for all followers: no direct Note, nothing of a community, and no chat message, which
only its audience tells from a post. -/
def Open (o : Object) : Prop :=
  o.visibility ≠ .direct ∧ o.communityApId = none ∧ o.audienceJson = []

/-- What every step keeps: the Create of exactly the open objects was fanned out to followers. -/
structure Kept (w : Site) (d : Db) : Prop where
  broadcast : ∀ o ∈ d.objects, w.isLocal o.attributedTo = true → (broadcast o d ↔ Open o)

theorem fresh_iff {apId : Text} : fresh apId d = true ↔
    (∀ o ∈ d.objects, o.apId ≠ apId) ∧ ∀ x ∈ d.fanouts, x.activity.objectApId ≠ apId := by
  simp [fresh]

theorem open_congr (hv : o.visibility = post.visibility) (hc : o.communityApId = post.communityApId)
    (ha : o.audienceJson = post.audienceJson) : Open o ↔ Open post := by
  unfold Open
  rw [hv,hc,ha]

theorem broadcast_append {new : List Fanout} (hd : e.fanouts = d.fanouts ++ new)
    (hnew : ∀ x ∈ new, x.activity.type = .create → x.activity.objectApId ≠ o.apId) :
    broadcast o e ↔ broadcast o d := by
  unfold broadcast
  rw [hd]
  constructor
  · rintro ⟨x,hx,hb⟩
    rcases List.mem_append.mp hx with hold | hx
    · exact ⟨x,hold,hb⟩
    · exact absurd hb.2.2.1 (hnew x hx hb.2.1)
  · rintro ⟨x,hx,hb⟩
    exact ⟨x,List.mem_append_left _ hx,hb⟩

theorem broadcast_congr (hid : o.apId = post.apId) (hauthor : o.attributedTo = post.attributedTo) :
    broadcast o d ↔ broadcast post d := by
  unfold broadcast Broadcasts
  rw [hid,hauthor]

theorem Kept.insert (h : Kept w d) (new : List Fanout) (hfresh : fresh post.apId d = true)
    (hobjects : e.objects = d.objects ++ [post]) (hfanouts : e.fanouts = d.fanouts ++ new)
    (hid : ∀ x ∈ new, x.activity.objectApId = post.apId)
    (hopen : w.isLocal post.attributedTo = true →
      ((∃ x ∈ new, Broadcasts post x) ↔ Open post)) : Kept w e where
  broadcast o ho hlocal := by
    obtain ⟨hobject,hfanout⟩ := fresh_iff.mp hfresh
    rw [hobjects] at ho
    rcases List.mem_append.mp ho with hold | ho
    · rw [broadcast_append hfanouts fun x hx _ => ?_]
      · exact h.broadcast o hold hlocal
      · rw [hid x hx]
        exact (hobject o hold).symm
    · rw [List.mem_singleton] at ho
      subst ho
      rw [← hopen hlocal]
      constructor
      · rintro ⟨x,hx,hb⟩
        rw [hfanouts] at hx
        rcases List.mem_append.mp hx with hx | hx
        · exact absurd hb.2.2.1 (hfanout x hx)
        · exact ⟨x,hx,hb⟩
      · rintro ⟨x,hx,hb⟩
        exact ⟨x,by rw [hfanouts]; exact List.mem_append_right _ hx,hb⟩

theorem Kept.change (h : Kept w d) (new : List Fanout)
    (hobjects : ∀ o ∈ e.objects, ∃ q ∈ d.objects, o.apId = q.apId ∧
      o.attributedTo = q.attributedTo ∧ (Open o ↔ Open q))
    (hfanouts : e.fanouts = d.fanouts ++ new)
    (hnew : ∀ x ∈ new, x.activity.type ≠ .create) : Kept w e where
  broadcast o ho hlocal := by
    obtain ⟨q,hq,hid,hauthor,hopen⟩ := hobjects o ho
    rw [broadcast_append hfanouts fun x hx htype => absurd htype (hnew x hx),
      broadcast_congr hid hauthor,hopen]
    exact h.broadcast q hq (hauthor ▸ hlocal)

end broadcasts

section writers

variable {w : Site} {d : Db}

@[simp] theorem commit_objects (p : Prepared) : (commit p d).objects = d.objects := rfl

@[simp] theorem commit_fanouts (p : Prepared) :
    (commit p d).fanouts = d.fanouts ++ p.fanouts := rfl

@[simp] theorem commit_deliveries (p : Prepared) : (commit p d).deliveries = d.deliveries := rfl

@[simp] theorem enqueue_objects (a : Activity) (recipients : List Text) :
    (enqueue a recipients d).objects = d.objects := rfl

@[simp] theorem enqueue_fanouts (a : Activity) (recipients : List Text) :
    (enqueue a recipients d).fanouts = d.fanouts := rfl

theorem community_fanouts {a : Activity} {community : Text} {row : Option Bool} {x : Fanout}
    (h : x ∈ (preparePersistAndFanoutToCommunity a community row).fanouts) :
    x.kind = .community ∧ x.activity = a ∧ x.targetApId = community := by
  unfold preparePersistAndFanoutToCommunity at h
  split at h
  · cases row with
    | none => cases h
    | some isPublicCommunity =>
      simp only [List.mem_singleton] at h
      subst h
      exact ⟨rfl,rfl,rfl⟩
  · simp only [List.mem_singleton] at h
    subst h
    exact ⟨rfl,rfl,rfl⟩

theorem Kept.createPost (h : Kept w d) {input : PostInput} {mentions : Mentions}
    {row : Option Bool} (hfresh : fresh input.objectApId d = true) :
    Kept w (createPost w input mentions row d) := by
  unfold PostAudience.createPost
  simp only
  refine h.insert _ hfresh rfl rfl ?_ fun _ => ?_
  · intro x hx
    split at hx
    · split at hx <;> cases hx
    · split at hx
      · exact congrArg Activity.objectApId (community_fanouts hx).2.1
      · simp only [preparePersistAndFanout,List.mem_singleton] at hx
        subst hx
        rfl
  · unfold Open
    simp only [postAddressing]
    by_cases hdirect : input.visibility = .direct
    · simp only [hdirect,if_true,ne_eq,not_true_eq_false,false_and,iff_false]
      rintro ⟨x,hx,_⟩
      split at hx <;> cases hx
    · simp only [hdirect,if_false,ne_eq,not_false_eq_true,true_and]
      cases hcommunity : input.community with
      | some community =>
        simp only [Option.map_some,reduceCtorEq,false_and,iff_false]
        rintro ⟨x,hx,hb⟩
        have hkind := (community_fanouts hx).1
        rw [hb.1] at hkind
        cases hkind
      | none =>
        simp only [Option.map_none,true_and,iff_true]
        exact ⟨_,List.mem_singleton_self _,rfl,rfl,rfl,rfl⟩

theorem Kept.createDm (h : Kept w d) {actorApId objectApId content recipient : Text}
    (hfresh : fresh objectApId d = true) :
    Kept w (createDm actorApId objectApId content recipient d) := by
  refine h.insert [] hfresh rfl (List.append_nil _).symm (fun x hx => by cases hx) ?_
  intro _
  simp [Open]

theorem Kept.createChat (h : Kept w d) {actorApId objectApId content community : Text}
    (hfresh : fresh objectApId d = true) :
    Kept w (createChat actorApId objectApId content community d) := by
  refine h.insert [] hfresh rfl (List.append_nil _).symm (fun x hx => by cases hx) ?_
  intro _
  simp [Open]

theorem Kept.createStory (h : Kept w d) {actorApId objectApId : Text}
    {community : Option CommunityTarget} (hfresh : fresh objectApId d = true) :
    Kept w (createStory actorApId objectApId community d) := by
  cases community with
  | some community =>
    refine h.insert _ hfresh rfl rfl (fun x hx => ?_) fun _ => ?_
    · rw [List.mem_singleton.mp hx]
    · simp [Open,Broadcasts]
  | none =>
    refine h.insert _ hfresh rfl rfl (fun x hx => ?_) fun _ => ?_
    · rw [List.mem_singleton.mp hx]
    · simp [Open,Broadcasts]

theorem open_applyEdit (edit : Edit) (o : Object) : Open (applyEdit edit o) ↔ Open o :=
  open_congr rfl rfl rfl

theorem Kept.patch (h : Kept w d) {actorApId : Text} {post : Object} {edit : Edit} :
    Kept w (patch actorApId post edit d) := by
  refine h.change _ ?_ rfl ?_
  · intro o ho
    obtain ⟨q,hq,⟨_,rfl⟩ | ⟨_,rfl⟩⟩ := Table.mem_update.mp ho
    · exact ⟨o,hq,rfl,rfl,Iff.rfl⟩
    · exact ⟨q,hq,rfl,rfl,open_applyEdit edit q⟩
  · intro x hx
    split at hx
    · rw [(community_fanouts hx).2.1]
      nofun
    · simp only [preparePersistAndFanout,List.mem_singleton] at hx
      subst hx
      nofun

theorem Kept.deletePost (h : Kept w d) {actorApId : Text} {post : Object} :
    Kept w (deletePost w actorApId post d) := by
  refine h.change _ ?_ rfl ?_
  · intro o ho
    exact ⟨o,(List.mem_filter.mp ho).1,rfl,rfl,Iff.rfl⟩
  · intro x hx
    split at hx
    · cases hx
    · split at hx
      · rw [(community_fanouts hx).2.1]
        nofun
      · simp only [preparePersistAndFanout,List.mem_singleton] at hx
        subst hx
        nofun

end writers

section steps

variable {w : Site} {d e : Db} {op : Op} {post : Object}

theorem Kept.step (h : Kept w d) (hl : (machine w).step op d = some e) : Kept w e := by
  cases op with
  | createPost input mentions row =>
    simp only [machine,PostAudience.step,Option.ite_none_right_eq_some,Bool.and_eq_true,
      Option.some.injEq] at hl
    exact hl.2 ▸ h.createPost hl.1.2
  | createDm actorApId objectApId content recipient =>
    simp only [machine,PostAudience.step,Option.ite_none_right_eq_some,Bool.and_eq_true,
      Option.some.injEq] at hl
    exact hl.2 ▸ h.createDm hl.1.2
  | createChat actorApId objectApId content community =>
    simp only [machine,PostAudience.step,Option.ite_none_right_eq_some,Bool.and_eq_true,
      Option.some.injEq] at hl
    exact hl.2 ▸ h.createChat hl.1.2
  | createStory actorApId objectApId community =>
    simp only [machine,PostAudience.step,Option.ite_none_right_eq_some,Bool.and_eq_true,
      Option.some.injEq] at hl
    exact hl.2 ▸ h.createStory hl.1.2
  | patch actorApId postId edit =>
    simp only [machine,PostAudience.step,Option.ite_none_right_eq_some,
      Option.map_eq_some_iff] at hl
    obtain ⟨_,post,_,rfl⟩ := hl
    exact h.patch
  | delete actorApId postId =>
    simp only [machine,PostAudience.step,Option.ite_none_right_eq_some,
      Option.map_eq_some_iff] at hl
    obtain ⟨_,post,_,rfl⟩ := hl
    exact h.deletePost
  | toolDelete actorApId postId =>
    simp only [machine,PostAudience.step,Option.ite_none_right_eq_some,
      Option.map_eq_some_iff] at hl
    obtain ⟨_,post,_,rfl⟩ := hl
    exact h.deletePost
  | receive o =>
    simp only [machine,PostAudience.step,Option.ite_none_right_eq_some,Bool.and_eq_true,
      Option.some.injEq,Bool.not_eq_true'] at hl
    obtain ⟨⟨hremote,hfresh⟩,rfl⟩ := hl
    refine h.insert [] hfresh rfl (List.append_nil _).symm (fun x hx => by cases hx) ?_
    intro hlocal
    rw [hremote] at hlocal
    cases hlocal
  | remove apId =>
    simp only [machine,PostAudience.step,Option.some.injEq] at hl
    subst hl
    refine h.change [] ?_ (List.append_nil _).symm (fun x hx => by cases hx)
    intro o ho
    exact ⟨o,(List.mem_filter.mp ho).1,rfl,rfl,Iff.rfl⟩

def Conforms (post : Object) (d e : Db) : Prop :=
  (∀ x ∈ e.fanouts.drop d.fanouts.length, (x.kind = .followers → broadcast post d) ∧
    (x.kind = .community → post.communityApId = some x.targetApId)) ∧
  ∀ y ∈ e.deliveries.drop d.deliveries.length, y.recipient ∈ post.toJson ∨
    y.recipient ∈ post.ccJson ∨
    ∃ parent ∈ d.objects, post.inReplyTo = some parent.apId ∧ parent.attributedTo = y.recipient

def Spares (post : Object) : Op → Prop
  | .patch _ _ _ => post.communityApId.isSome = true ∨ Open post
  | _ => post.visibility = .direct ∨ post.communityApId.isSome = true ∨ post.audienceJson = []

theorem patch_conforms_iff (h : Kept w d) {actorApId postId : Text} {edit : Edit}
    (hpost : post ∈ d.objects) (hlocal : w.isLocal post.attributedTo = true) :
    Conforms post d (patch actorApId post edit d) ↔ Spares post (.patch actorApId postId edit) := by
  simp only [Conforms,Spares,patch,commit_fanouts,commit_deliveries,List.drop_left,
    List.drop_length,List.not_mem_nil,false_implies,implies_true,and_true]
  cases hcommunity : post.communityApId with
  | some community =>
    simp only [Option.isSome_some,true_or,iff_true]
    intro x hx
    obtain ⟨hkind,_,htarget⟩ := community_fanouts hx
    rw [hkind,htarget]
    exact ⟨nofun,fun _ => rfl⟩
  | none =>
    simp [preparePersistAndFanout,h.broadcast post hpost hlocal]

theorem mem_explicitRecipients {r : Text} (h : r ∈ explicitRecipients w post d) :
    r ∈ post.toJson ∨ r ∈ post.ccJson ∨
      ∃ parent ∈ d.objects, post.inReplyTo = some parent.apId ∧ parent.attributedTo = r := by
  rw [explicitRecipients,List.mem_eraseDups,List.mem_append] at h
  rcases h with h | h
  · rcases List.mem_append.mp (List.mem_filter.mp h).1 with hto | hcc
    · exact .inl hto
    · exact .inr (.inl hcc)
  · rw [Option.mem_toList,Option.filter_eq_some_iff] at h
    have hparent := h.1
    rw [parentAuthor,Option.bind_eq_some_iff] at hparent
    obtain ⟨id,hid,hfound⟩ := hparent
    obtain ⟨parent,hfind,hauthor⟩ := Option.map_eq_some_iff.mp hfound
    have hsame := List.find?_some hfind
    rw [decide_eq_true_eq] at hsame
    exact .inr (.inr ⟨parent,List.mem_of_find?_eq_some hfind,hsame ▸ hid,hauthor⟩)

theorem delete_conforms_iff (h : Kept w d) {actorApId : Text}
    (hpost : post ∈ d.objects) (hlocal : w.isLocal post.attributedTo = true) :
    Conforms post d (deletePost w actorApId post d) ↔ post.visibility = .direct ∨
      post.communityApId.isSome = true ∨ post.audienceJson = [] := by
  have hdeliveries : ∀ y ∈ (deletePost w actorApId post d).deliveries.drop d.deliveries.length,
      y.recipient ∈ post.toJson ∨ y.recipient ∈ post.ccJson ∨ ∃ parent ∈ d.objects,
        post.inReplyTo = some parent.apId ∧ parent.attributedTo = y.recipient := by
    intro y hy
    simp only [deletePost,enqueue,commit_deliveries,List.drop_left,List.mem_map] at hy
    obtain ⟨r,hr,rfl⟩ := hy
    exact mem_explicitRecipients hr
  rw [Conforms,and_iff_left hdeliveries]
  simp only [deletePost,enqueue_fanouts,commit_fanouts,List.drop_left]
  by_cases hdirect : post.visibility = .direct
  · simp [hdirect]
  · simp only [hdirect,if_false,false_or]
    cases hcommunity : post.communityApId with
    | some community =>
      simp only [Option.isSome_some,true_or,iff_true]
      intro x hx
      obtain ⟨hkind,_,htarget⟩ := community_fanouts hx
      rw [hkind,htarget]
      exact ⟨nofun,fun _ => rfl⟩
    | none =>
      simp [preparePersistAndFanout,h.broadcast post hpost hlocal,Open,hdirect,hcommunity]

theorem target_mem (h : target w d op = some post) : post ∈ d.objects := by
  cases op with
  | patch actorApId postId edit =>
    simp only [target,Option.ite_none_right_eq_some,Option.filter_eq_some_iff] at h
    exact List.mem_of_find?_eq_some h.2.1
  | delete actorApId postId =>
    simp only [target,Option.filter_eq_some_iff] at h
    exact List.mem_of_find?_eq_some h.1
  | toolDelete actorApId postId => exact List.mem_of_find?_eq_some h
  | _ => cases h

def empty : Db := ⟨[],[],[],[]⟩

theorem kept_empty : Kept w empty where
  broadcast o ho := by cases ho

theorem Kept.reaches (h : (machine w).Reaches empty d) : Kept w d :=
  h.invariant (P := Kept w) kept_empty fun _ _ _ hk hl _ => hk.step hl

/-- An edit keeps to the audience exactly if the object is of a community or open, a deletion
exactly if it is direct, of a community, or no chat message. -/
theorem stays_in_audience_iff (hr : (machine w).Reaches empty d)
    (hpost : target w d op = some post) (hl : (machine w).step op d = some e) :
    Conforms post d e ↔ Spares post op := by
  have hk := Kept.reaches hr
  have hmem := target_mem hpost
  cases op with
  | patch actorApId postId edit =>
    simp only [machine,step,hpost,Option.map_some,Option.ite_none_right_eq_some,
      Option.some.injEq] at hl
    simp only [target,Option.ite_none_right_eq_some,Option.filter_eq_some_iff,
      decide_eq_true_eq] at hpost
    obtain ⟨hlocal,rfl⟩ := hl
    exact patch_conforms_iff hk hmem (hpost.2.2 ▸ hlocal)
  | delete actorApId postId =>
    simp only [machine,step,hpost,Option.map_some,Option.ite_none_right_eq_some,
      Option.some.injEq] at hl
    simp only [target,Option.filter_eq_some_iff,decide_eq_true_eq] at hpost
    obtain ⟨hlocal,rfl⟩ := hl
    exact delete_conforms_iff hk hmem (hpost.2 ▸ hlocal)
  | toolDelete actorApId postId =>
    simp only [machine,step,hpost,Option.map_some,Option.ite_none_right_eq_some,
      Option.some.injEq] at hl
    have hfound := List.find?_some hpost
    rw [Bool.and_eq_true,decide_eq_true_eq] at hfound
    obtain ⟨hlocal,rfl⟩ := hl
    exact delete_conforms_iff hk hmem (hfound.2 ▸ hlocal)
  | _ => cases hpost

end steps

section examples

def here : Site where
  isLocal a := a.take 1 = ['a']
  isSafeRemoteUrl _ := true
  objectApId id := id
  noteApId id := id
  formatUsername a := a

def posted : Db := createPost here ⟨['a'],['p'],['t'],none,none,none,.pub,none⟩ {} none empty

def messaged : Db := createDm ['a'] ['m'] ['s'] ['b'] empty

def edit : Edit := ⟨some ['u'],none,[]⟩

theorem stays_in_audience_iff_posted : ∃ e post, (machine here).step (.patch ['a'] ['p'] edit)
    posted = some e ∧ Conforms post posted e := by
  have hr : (machine here).Reaches empty posted :=
    Machine.Reaches.single (l := .createPost ⟨['a'],['p'],['t'],none,none,none,.pub,none⟩ {} none)
      rfl
  have hpost : target here posted (.patch ['a'] ['p'] edit) =
    some { apId := ['p'], attributedTo := ['a'], content := ['t']
           toJson := [publicUrl], ccJson := [followersOf ['a']] } := rfl
  exact ⟨_,_,rfl,(stays_in_audience_iff hr hpost rfl).mpr (.inr ⟨nofun,rfl,rfl⟩)⟩

/-- The edit of a direct message is fanned out to every follower of its author. -/
theorem direct_edit_broadcast : ¬∀ (w : Site) (d e : Db) (op : Op) (post : Object),
    (machine w).Reaches empty d → target w d op = some post →
      (machine w).step op d = some e → Conforms post d e := by
  intro h
  have hr : (machine here).Reaches empty messaged :=
    Machine.Reaches.single (l := .createDm ['a'] ['m'] ['s'] ['b']) rfl
  have hc := h here messaged _ (.patch ['a'] ['m'] edit) _ hr rfl rfl
  obtain ⟨x,hx,_⟩ := (hc.1 _ List.mem_cons_self).1 rfl
  cases hx

end examples

end Yurucommu.PostAudience
