import Yurucommu.PostRecipients

/-!
Edits and deletions of posts that overlap: each request reads the row, derives the tags of the next
content, and writes in one batch. The last Update agrees with the row that is stored.
-/

set_option autoImplicit false

namespace Yurucommu.PostEdits

open Whatwg (Text)
open PostAudience (Site Db Object Activity Edit Tag postWhereByIdOrApId patch deletePost
  resolvePostMentions applyEdit commit_objects)

section tags

/-- Every match of a pattern that tells, at a place of the text, what it finds and what is left;
`fuel` is the length of the text. -/
def matchAll (pattern : Text → Option (Text × Text)) : Nat → Text → List Text
  | 0, _ => []
  | _, [] => []
  | fuel + 1, c :: rest =>
    match pattern (c :: rest) with
    | some (found,left) => found :: matchAll pattern fuel left
    | none => matchAll pattern fuel rest

def isWordChar (c : Char) : Bool := c.isAlphanum || c = '_'

def isMentionHostChar (c : Char) : Bool := c.isAlphanum || c = '.' || c = '-'

/-- A name and perhaps its host, after an at sign. -/
def mentionPattern : Text → Option (Text × Text)
  | '@' :: rest =>
    let name := rest.takeWhile isWordChar
    if name = [] then none
    else
      match rest.dropWhile isWordChar with
      | '@' :: after =>
        let host := after.takeWhile isMentionHostChar
        if host = [] then some (name,'@' :: after)
        else some (name ++ '@' :: host,after.dropWhile isMentionHostChar)
      | after => some (name,after)
  | _ => none

def extractMentions (content : Text) : List Text :=
  (matchAll mentionPattern content.length content).eraseDups

structure Hashtags where
  isTagChar : Char → Bool
  toLowerCase : Text → Text
  href : Text → Text

def hashtagPattern (t : Hashtags) : Text → Option (Text × Text)
  | '#' :: rest =>
    let tag := rest.takeWhile t.isTagChar
    if tag = [] then none else some (tag,rest.dropWhile t.isTagChar)
  | _ => none

def extractHashtags (t : Hashtags) (content : Text) : List Text :=
  (matchAll (hashtagPattern t) content.length content).foldl (fun out tag =>
    if (out.map t.toLowerCase).contains (t.toLowerCase tag) then out else out ++ [tag]) []

/-- `lookup` reads the row of a mention's local or cached actor. -/
def deriveContentTags (w : Site) (t : Hashtags) (lookup : Text → Option Text) (content : Text)
    (actorApId : Text) : List Tag :=
  (resolvePostMentions w actorApId lookup
    ((extractHashtags t content).map fun tag => ⟨"Hashtag".toList,t.href tag,'#' :: tag⟩)
    (extractMentions content)).tags

end tags

structure Body where
  content : Option Text
  summary : Option Text
deriving DecidableEq, Repr

/-- `body` is none where its validation refuses it. -/
inductive Request where
  | patch (actorApId postId : Text) (body : Option Body)
  | delete (actorApId postId : Text)
deriving DecidableEq, Repr

/-- What a request does next. `answered` tells whether it answers success, and whether its batch
has found the row. -/
inductive Stage where
  | start (request : Request)
  | derive (actorApId : Text) (post : Object) (body : Body)
  | write (actorApId : Text) (post : Object) (edit : Edit)
  | remove (actorApId : Text) (post : Object)
  | answered (success effected : Bool)
deriving DecidableEq, Repr

section requests

variable (w : Site) (t : Hashtags) (lookup : Text → Option Text)

def present (d : Db) (apId : Text) : Bool := d.objects.any fun o => o.apId = apId

def work (d : Db) : Stage → Db × Stage
  | .start (.patch actorApId postId body) =>
    match d.objects.find? (postWhereByIdOrApId w postId) with
    | none => (d,.answered false false)
    | some post =>
      if post.attributedTo ≠ actorApId then (d,.answered false false)
      else
        match body with
        | none => (d,.answered false false)
        | some body =>
          if body.content.isNone && body.summary.isNone then (d,.answered false false)
          else (d,.derive actorApId post body)
  | .derive actorApId post body =>
    let nextContent := body.content.getD post.content
    (d,.write actorApId post
      ⟨body.content,body.summary,deriveContentTags w t lookup nextContent actorApId⟩)
  | .write actorApId post edit =>
    (patch actorApId post edit d,.answered true (present d post.apId))
  | .start (.delete actorApId postId) =>
    match d.objects.find? (postWhereByIdOrApId w postId) with
    | none => (d,.answered false false)
    | some post =>
      if post.attributedTo ≠ actorApId then (d,.answered false false)
      else (d,.remove actorApId post)
  | .remove actorApId post =>
    let d' := deletePost w actorApId post d
    (d',.answered true (!present d' post.apId))
  | .answered success effected => (d,.answered success effected)

def Stage.running : Stage → Bool
  | .answered _ _ => false
  | _ => true

def threads : Threads Db Stage Unit Unit :=
  .guarded (fun _ _ stage => stage.running) (fun _ _ d stage => work w t lookup d stage)
    (fun _ _ => false) fun _ d => d

abbrev Pool := Threads.Pool Db Stage

def begin (d : Db) (requests : Nat → Request) : Pool := ⟨d,fun p => .start (requests p)⟩

end requests

section promise

def IsUpdate (apId : Text) (a : Activity) : Prop := a.type = .update ∧ a.objectApId = apId

def IsDelete (apId : Text) (a : Activity) : Prop := a.type = .delete ∧ a.objectApId = apId

instance (apId : Text) : DecidablePred (IsUpdate apId) :=
  fun _ => inferInstanceAs (Decidable (_ ∧ _))

/-- What is promised of an object, `d₀` being the database before the requests. -/
structure Converged (w : Site) (t : Hashtags) (lookup : Text → Option Text) (d₀ : Db) (apId : Text)
    (s : Pool) : Prop where
  grown : ∃ new, s.store.activities = d₀.activities ++ new ∧
    (∀ u, (new.filter (IsUpdate apId ·)).getLast? = some u →
      ∀ o ∈ s.store.objects, o.apId = apId → u.content = some o.content ∧ u.summary = o.summary ∧
        u.tags = deriveContentTags w t lookup o.content u.actorApId) ∧
    ∀ before deletion after, new = before ++ deletion :: after → IsDelete apId deletion →
      ∀ u ∈ after, ¬IsUpdate apId u
  effected : ∀ p effected, s.thread p = .answered true effected → effected = true

/-- The row that an edit is about to write is there, and what the edit leaves is still as it was
read. -/
structure Current (d : Db) (post : Object) (edit : Edit) : Prop where
  present : ∃ o ∈ d.objects, o.apId = post.apId
  content : edit.content = none → ∀ o ∈ d.objects, o.apId = post.apId → o.content = post.content
  summary : edit.summary = none → ∀ o ∈ d.objects, o.apId = post.apId → o.summary = post.summary

def Meets (s : Pool) : Threads.Label Unit Unit → Pool → Prop
  | .act p _, _ => ∀ actorApId post edit, s.thread p = .write actorApId post edit →
      Current s.store post edit
  | .env _, _ => True

end promise

section writes

variable {w : Site} {t : Hashtags} {lookup : Text → Option Text} {d d₀ : Db} {post : Object}
  {edit : Edit} {actorApId apId : Text} {new : List Activity}

def updateOf (actorApId : Text) (post : Object) (edit : Edit) : Activity :=
  ⟨.update,actorApId,post.apId,post.toJson,post.ccJson,post.audienceJson,
    some (applyEdit edit post).content,(applyEdit edit post).summary,edit.tags⟩

theorem patch_activities :
    (patch actorApId post edit d).activities = d.activities ++ [updateOf actorApId post edit] := by
  unfold PostAudience.patch PostAudience.commit
  cases post.communityApId <;> rfl

theorem deletePost_activities : ∃ a, IsDelete post.apId a ∧
    (deletePost w actorApId post d).activities = d.activities ++ [a] := by
  refine ⟨⟨.delete,actorApId,post.apId,post.toJson,post.ccJson,[],none,none,[]⟩,⟨rfl,rfl⟩,?_⟩
  unfold PostAudience.deletePost PostAudience.enqueue PostAudience.commit
  dsimp only
  split
  · rfl
  · cases post.communityApId <;> rfl

theorem mem_patch_objects {o : Object} :
    o ∈ (patch actorApId post edit d).objects ↔
      ∃ q ∈ d.objects, (q.apId ≠ post.apId ∧ o = q) ∨
        (q.apId = post.apId ∧ o = applyEdit edit q) := by
  unfold PostAudience.patch
  rw [commit_objects,Table.mem_update]
  simp only [decide_eq_false_iff_not,decide_eq_true_eq]

theorem mem_deletePost_objects {o : Object} : o ∈ (deletePost w actorApId post d).objects ↔
    o ∈ d.objects ∧ o.apId ≠ post.apId := by
  have hobjects : (deletePost w actorApId post d).objects =
      Table.delete (fun o => o.apId = post.apId) d.objects := by
    unfold PostAudience.deletePost
    rw [PostAudience.enqueue_objects,commit_objects]
  rw [hobjects,Table.delete,List.mem_filter]
  simp

structure Log (w : Site) (t : Hashtags) (lookup : Text → Option Text) (apId : Text) (d : Db)
    (new : List Activity) : Prop where
  last : ∀ u, (new.filter (IsUpdate apId ·)).getLast? = some u →
    ∀ o ∈ d.objects, o.apId = apId → u.content = some o.content ∧ u.summary = o.summary ∧
      u.tags = deriveContentTags w t lookup o.content u.actorApId
  gone : ∀ a ∈ new, IsDelete apId a → ∀ o ∈ d.objects, o.apId ≠ apId
  ordered : new.Pairwise fun a b => IsDelete apId a → ¬IsUpdate apId b

theorem not_isUpdate_of_isDelete {a : Activity} {other : Text} (h : IsDelete other a) :
    ¬IsUpdate apId a := by
  intro hu
  have htype := hu.1
  rw [h.1] at htype
  cases htype

theorem filter_snoc_of_not {a : Activity} (h : ¬IsUpdate apId a) :
    (new ++ [a]).filter (IsUpdate apId ·) = new.filter (IsUpdate apId ·) := by
  rw [List.filter_append,List.filter_singleton,decide_eq_false h]
  exact List.append_nil _

theorem Log.deletePost (h : Log w t lookup apId d new) {a : Activity} (ha : IsDelete post.apId a) :
    Log w t lookup apId (deletePost w actorApId post d) (new ++ [a]) := by
  have hno : ¬IsUpdate apId a := not_isUpdate_of_isDelete ha
  refine ⟨fun u hu o ho hid => ?_,fun b hb hdel o ho => ?_,?_⟩
  · rw [filter_snoc_of_not hno] at hu
    exact h.last u hu o (mem_deletePost_objects.mp ho).1 hid
  · obtain ⟨hold,hne⟩ := mem_deletePost_objects.mp ho
    rcases List.mem_append.mp hb with hb | hb
    · exact h.gone b hb hdel o hold
    · obtain rfl := List.mem_singleton.mp hb
      rw [← ha.2,hdel.2] at hne
      exact hne
  · refine List.pairwise_append.mpr ⟨h.ordered,List.pairwise_singleton _ _,fun _ _ b hb _ => ?_⟩
    obtain rfl := List.mem_singleton.mp hb
    exact hno

theorem Log.patch (h : Log w t lookup apId d new) (hc : Current d post edit)
    (htags : edit.tags =
      deriveContentTags w t lookup (edit.content.getD post.content) actorApId) :
    Log w t lookup apId (patch actorApId post edit d) (new ++ [updateOf actorApId post edit]) := by
  have hup : ∀ x, IsUpdate x (updateOf actorApId post edit) ↔ post.apId = x := fun x =>
    ⟨fun h => h.2,fun h => ⟨rfl,h⟩⟩
  have hnodelete : ¬IsDelete apId (updateOf actorApId post edit) := by
    intro hd
    cases hd.1
  refine ⟨fun u hu o ho hid => ?_,fun b hb hdel o ho => ?_,?_⟩
  · obtain ⟨q,hq,⟨hne,rfl⟩ | ⟨hpost,rfl⟩⟩ := mem_patch_objects.mp ho
    · have hno : ¬IsUpdate apId (updateOf actorApId post edit) := by
        rw [hup]
        exact fun heq => hne (hid.trans heq.symm)
      rw [filter_snoc_of_not hno] at hu
      exact h.last u hu o hq hid
    · have hyes : IsUpdate apId (updateOf actorApId post edit) :=
        (hup _).mpr (hpost.symm.trans hid)
      rw [List.filter_append,List.filter_singleton,decide_eq_true hyes] at hu
      simp only [cond_true,List.getLast?_append,List.getLast?_singleton,Option.some_or,
        Option.some.injEq] at hu
      subst hu
      have hcontent : (applyEdit edit q).content = (applyEdit edit post).content := by
        cases hnew : edit.content with
        | none => simp [applyEdit,hnew,hc.content hnew q hq hpost]
        | some content => simp [applyEdit,hnew]
      have hsummary : (applyEdit edit q).summary = (applyEdit edit post).summary := by
        cases hnew : edit.summary with
        | none => simp [applyEdit,hnew,hc.summary hnew q hq hpost]
        | some summary => simp [applyEdit,hnew]
      rw [hcontent,hsummary]
      exact ⟨rfl,rfl,htags⟩
  · obtain ⟨q,hq,hcase⟩ := mem_patch_objects.mp ho
    have hid : o.apId = q.apId := by
      rcases hcase with ⟨_,rfl⟩ | ⟨_,rfl⟩ <;> rfl
    rw [hid]
    rcases List.mem_append.mp hb with hb | hb
    · exact h.gone b hb hdel q hq
    · obtain rfl := List.mem_singleton.mp hb
      exact absurd hdel hnodelete
  · refine List.pairwise_append.mpr ⟨h.ordered,List.pairwise_singleton _ _,
      fun a ha b hb hdel => ?_⟩
    obtain rfl := List.mem_singleton.mp hb
    rw [hup]
    intro heq
    obtain ⟨o,ho,hid⟩ := hc.present
    exact h.gone a ha hdel o ho (hid.trans heq)

end writes

section runs

variable {w : Site} {t : Hashtags} {lookup : Text → Option Text} {d d₀ : Db} {s s' : Pool}
  {apId : Text}

def Pending (w : Site) (t : Hashtags) (lookup : Text → Option Text) : Stage → Prop
  | .write actorApId post edit => edit.tags =
      deriveContentTags w t lookup (edit.content.getD post.content) actorApId
  | .answered success effected => success = true → effected = true
  | _ => True

structure Sound (w : Site) (t : Hashtags) (lookup : Text → Option Text) (d₀ : Db) (apId : Text)
    (s : Pool) : Prop where
  log : ∃ new, s.store.activities = d₀.activities ++ new ∧ Log w t lookup apId s.store new
  pending : ∀ p, Pending w t lookup (s.thread p)

theorem Sound.converged (h : Sound w t lookup d₀ apId s) : Converged w t lookup d₀ apId s := by
  obtain ⟨new,hnew,hlog⟩ := h.log
  refine ⟨⟨new,hnew,hlog.last,fun before deletion after heq hdel u hu => ?_⟩,fun p e hp => ?_⟩
  · have hordered := hlog.ordered
    rw [heq,List.pairwise_append] at hordered
    exact (List.pairwise_cons.mp hordered.2.1).1 u hu hdel
  · have hpending := h.pending p
    rw [hp] at hpending
    exact hpending rfl

theorem pending_work_start (request : Request) :
    (work w t lookup d (.start request)).1 = d ∧
      Pending w t lookup (work w t lookup d (.start request)).2 := by
  cases request with
  | patch actorApId postId body =>
    simp only [work]
    cases d.objects.find? (postWhereByIdOrApId w postId) with
    | none => exact ⟨rfl,nofun⟩
    | some post =>
      dsimp only
      split
      · exact ⟨rfl,nofun⟩
      · cases body with
        | none => exact ⟨rfl,nofun⟩
        | some body =>
          dsimp only
          split
          · exact ⟨rfl,nofun⟩
          · exact ⟨rfl,trivial⟩
  | delete actorApId postId =>
    simp only [work]
    cases d.objects.find? (postWhereByIdOrApId w postId) with
    | none => exact ⟨rfl,nofun⟩
    | some post =>
      dsimp only
      split
      · exact ⟨rfl,nofun⟩
      · exact ⟨rfl,trivial⟩

theorem present_iff : present d apId = true ↔ ∃ o ∈ d.objects, o.apId = apId := by
  simp [present]

/-- One step of a request: what it leaves in the store and where it leaves the request. -/
theorem Sound.work (h : Sound w t lookup d₀ apId s) {p : Nat}
    (hm : ∀ actorApId post edit, s.thread p = .write actorApId post edit →
      Current s.store post edit) :
    (∃ new, (work w t lookup s.store (s.thread p)).1.activities = d₀.activities ++ new ∧
      Log w t lookup apId (work w t lookup s.store (s.thread p)).1 new) ∧
        Pending w t lookup (work w t lookup s.store (s.thread p)).2 := by
  have hp := h.pending p
  obtain ⟨new,hnew,hlog⟩ := h.log
  cases hstage : s.thread p with
  | start request =>
    obtain ⟨hsame,hpending⟩ : (PostEdits.work w t lookup s.store (.start request)).1 = s.store ∧
        Pending w t lookup (PostEdits.work w t lookup s.store (.start request)).2 :=
      pending_work_start request
    rw [hsame]
    exact ⟨⟨new,hnew,hlog⟩,hpending⟩
  | derive actorApId post body => exact ⟨⟨new,hnew,hlog⟩,rfl⟩
  | write actorApId post edit =>
    have hc := hm _ _ _ hstage
    rw [hstage] at hp
    refine ⟨⟨new ++ [updateOf actorApId post edit],?_,hlog.patch hc hp⟩,fun _ => ?_⟩
    · rw [← List.append_assoc,← hnew]
      exact patch_activities
    · exact present_iff.mpr hc.present
  | remove actorApId post =>
    obtain ⟨a,ha,hactivities⟩ : ∃ a, IsDelete post.apId a ∧
        (deletePost w actorApId post s.store).activities = s.store.activities ++ [a] :=
      deletePost_activities
    refine ⟨⟨new ++ [a],?_,hlog.deletePost ha⟩,fun _ => ?_⟩
    · rw [← List.append_assoc,← hnew]
      exact hactivities
    · rw [Bool.not_eq_true',← Bool.not_eq_true,present_iff]
      rintro ⟨o,ho,hid⟩
      exact (mem_deletePost_objects.mp ho).2 hid
  | answered success effected =>
    rw [hstage] at hp
    exact ⟨⟨new,hnew,hlog⟩,hp⟩

theorem Sound.step (h : Sound w t lookup d₀ apId s) {l : Threads.Label Unit Unit}
    (hl : (threads w t lookup).machine.step l s = some s') (hm : Meets s l s') :
    Sound w t lookup d₀ apId s' := by
  cases l with
  | act p i =>
    obtain ⟨_,rfl⟩ := Threads.guarded_step_act.mp hl
    obtain ⟨hlog,hpending⟩ := h.work hm
    refine ⟨hlog,fun q => ?_⟩
    by_cases hq : q = p
    · subst hq
      simpa using hpending
    · simpa only [Function.update_of_ne hq] using h.pending q
  | env e =>
    obtain ⟨hno,_⟩ := Threads.guarded_step_env.mp hl
    cases hno

theorem edits_converge (w : Site) (t : Hashtags) (lookup : Text → Option Text) (d₀ : Db)
    (requests : Nat → Request) (s : Pool)
    (hr : (threads w t lookup).machine.ReachesBy Meets (begin d₀ requests) s) (apId : Text) :
    Converged w t lookup d₀ apId s := by
  have hstart : Sound w t lookup d₀ apId (begin d₀ requests) :=
    ⟨⟨[],(List.append_nil _).symm,nofun,nofun,.nil⟩,fun _ => trivial⟩
  exact (hr.invariant hstart fun _ _ _ ha hl hm => ha.step hl hm).converged

end runs

section examples

open PostAudience (here posted)

def words : Hashtags := ⟨Char.isAlphanum,id,id⟩

def edits : Nat → Request
  | 0 => .patch ['a'] ['p'] (some ⟨some ['u'],none⟩)
  | _ => .patch ['a'] ['p'] (some ⟨none,some ['s']⟩)

abbrev act (p : Nat) : Threads.Label Unit Unit := .act p ()

def row : Object where
  apId := ['p']
  attributedTo := ['a']
  content := ['t']
  toJson := [PostAudience.publicUrl]
  ccJson := [PostAudience.followersOf ['a']]

def contentEdit : Edit := ⟨some ['u'],none,[]⟩

def summaryEdit : Edit := ⟨none,some ['s'],[]⟩

/-- An edit that nothing overlaps. -/
theorem edits_converge_alone : ∃ s,
    (threads here words some).machine.run [act 0,act 0,act 0] (begin posted edits) = some s ∧
      Converged here words some posted ['p'] s := by
  have hcurrent : Current posted row contentEdit :=
    ⟨⟨_,List.mem_cons_self,rfl⟩,fun _ => by decide,fun _ => by decide⟩
  have h₁ := Machine.ReachesBy.snoc (C := Meets) (.refl (begin posted edits))
    (m := (threads here words some).machine) (l := act 0) rfl (fun _ _ _ h => by cases h)
  have h₂ := h₁.snoc (l := act 0) rfl (fun _ _ _ h => by cases h)
  have h₃ := h₂.snoc (l := act 0) rfl (fun _ _ _ h => by cases h; exact hcurrent)
  exact ⟨_,rfl,edits_converge here words some posted edits _ h₃ ['p']⟩

/-- An edit of the content and one of the summary have both read the row: the last Update takes the
content back. -/
theorem overlapping_edits_diverge : ∃ s,
    (threads here words some).machine.Reaches (begin posted edits) s ∧
      s.thread 0 = .answered true true ∧ s.thread 1 = .answered true true ∧
        ¬Converged here words some posted ['p'] s := by
  have hrun : ∃ s, (threads here words some).machine.run
      [act 0,act 1,act 0,act 0,act 1,act 1] (begin posted edits) = some s ∧
        s.thread 0 = .answered true true ∧ s.thread 1 = .answered true true ∧
          applyEdit summaryEdit (applyEdit contentEdit row) ∈ s.store.objects ∧
            s.store.activities = posted.activities ++
              [updateOf ['a'] row contentEdit,updateOf ['a'] row summaryEdit] :=
    ⟨_,rfl,rfl,rfl,List.mem_cons_self,rfl⟩
  obtain ⟨s,hs,hfirst,hsecond,hrow,hactivities⟩ := hrun
  refine ⟨s,Machine.Reaches.of_run hs,hfirst,hsecond,fun h => ?_⟩
  obtain ⟨new,hnew,hlast,_⟩ := h.grown
  have hupdates := List.append_cancel_left (hactivities.symm.trans hnew)
  have hcontent := (hlast (updateOf ['a'] row summaryEdit) (by rw [← hupdates]; rfl) _ hrow rfl).1
  cases hcontent

end examples

end Yurucommu.PostEdits
