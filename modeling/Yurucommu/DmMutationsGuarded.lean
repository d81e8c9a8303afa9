import Yurucommu.DmMutations

/-!
A mutation of a direct message commits on the row that it read, with its activity and a resolution
for whomever the activity goes to; one that is answered with an error has written nothing.
-/

set_option autoImplicit false

namespace Yurucommu.DmMutations

open ActorIdentity (isSafeRemoteUrl)
open Blocklist (isActorBlockedStrict)
open Whatwg (Text)

abbrev Pool := Threads.Pool State Call

section promise

variable (w : Site)

def Write.result (o : Object) : Write → Option Object
  | .edit content updated => some { o with content := content, updated := some updated }
  | .delete _ => none

structure Sound (c : Commit) : Prop where
  matched : ∀ header, c.request.ifMatch = some header →
    header = quoted (ownedDmRevision w c.read)
  current : c.read ∈ c.before.objects ∧ c.read.apId = c.request.messageId ∧
    ownedDmScope c.before c.request.messageId c.read = true
  owned : c.read.attributedTo = c.request.actorApId
  object : ∀ o, o ∈ c.after.objects ↔
    (o ∈ c.before.objects ∧ o.apId ≠ c.read.apId) ∨ c.write.result c.read = some o
  activity : activityOf w c.request.activityApId c.read c.write ∈ c.after.activities
  delivered : ∀ id, id ∈ addresses w c.read.toJson ∨ id ∈ addresses w c.read.ccJson →
    isLocal w id = false → isSafeRemoteUrl w.platform id = true →
    isActorBlockedStrict w.platform c.before.blockedDomains c.before.blockedActors id = false →
    id ∉ c.before.remoteActorTombstones →
      c.after.resolutions.count ⟨c.request.activityApId,id⟩ = 1
  nobody : ∀ r ∈ c.after.resolutions, r ∈ c.before.resolutions ∨
    r.activityApId = c.request.activityApId ∧
      r.recipientActorApId ∈ recipients w c.before c.read ∧
        r.recipientActorApId ∉ c.before.remoteActorTombstones

def WroteBack (e d : Commit) : Prop :=
  e.read.apId = d.read.apId ∧
    ∃ updated, e.write = .edit d.read.content updated ∧ d.read.updated = some updated

structure Guarded (s : Pool) : Prop where
  sound : ∀ c ∈ s.store.log, Sound w c
  repeated : ∀ new mid old c d, s.store.log = new ++ d :: (mid ++ c :: old) →
    d.request.messageId = c.request.messageId → c.request.ifMatch.isSome = true →
    d.request.ifMatch = c.request.ifMatch →
      ownedDmRevision w d.read = ownedDmRevision w c.read ∧ ∃ e ∈ mid ++ [c], WroteBack e d
  failed : ∀ p status, (s.thread p).stage = .done status → status ≠ 200 →
    (s.thread p).wrote = false

end promise

section batches

variable {w : Site} {d d' : Db} {o m : Object} {apId : Text} {jobs : List Media} {write : Write}
  {who : List Text}

theorem Db.eq_of_apId {o p : Object} (h : d.valid = true) (ho : o ∈ d.objects)
    (hp : p ∈ d.objects) (heq : o.apId = p.apId) : o = p := by
  rw [Db.valid,Bool.and_eq_true,decide_eq_true_eq] at h
  exact List.inj_on_of_nodup_map h.1 ho hp heq

@[simp] theorem deleteProjections_objects :
    (deleteProjections apId d).objects = d.objects := rfl

@[simp] theorem activityDeleteCascade_objects :
    (activityDeleteCascade apId d).objects = d.objects := rfl

@[simp] theorem deleteChildren_objects :
    (deleteChildren apId jobs d).objects = d.objects := rfl

@[simp] theorem insertDelivery_objects {id : Text} :
    (insertDelivery w id o write who d).objects = d.objects := rfl

theorem applyWrite_lists : (applyWrite apId write d).blockedDomains = d.blockedDomains ∧
    (applyWrite apId write d).blockedActors = d.blockedActors := by
  cases write <;> exact ⟨rfl,rfl⟩

theorem applyWrite_tombstones :
    (applyWrite apId write d).remoteActorTombstones = d.remoteActorTombstones := by
  cases write <;> rfl

theorem sublist_applyWrite : (applyWrite apId write d).resolutions.Sublist d.resolutions := by
  cases write with
  | edit content updated => exact List.Sublist.refl _
  | delete jobs => exact List.filter_sublist.trans List.filter_sublist

theorem mem_applyWrite (hm : m ∈ d.objects) (h : d.valid = true) :
    o ∈ (applyWrite m.apId write d).objects ↔
      (o ∈ d.objects ∧ o.apId ≠ m.apId) ∨ write.result m = some o := by
  cases write with
  | edit content updated =>
    simp only [applyWrite,Write.result,Table.mem_update,Option.some.injEq]
    constructor
    · rintro ⟨q,hq,⟨hne,rfl⟩ | ⟨heq,rfl⟩⟩
      · exact Or.inl ⟨hq,of_decide_eq_false hne⟩
      · obtain rfl := Db.eq_of_apId h hq hm (of_decide_eq_true heq)
        exact Or.inr rfl
    · rintro (⟨ho,hne⟩ | rfl)
      · exact ⟨o,ho,Or.inl ⟨decide_eq_false hne,rfl⟩⟩
      · exact ⟨m,hm,Or.inr ⟨decide_eq_true rfl,rfl⟩⟩
  | delete jobs =>
    simp only [applyWrite,Write.result,deleteChildren_objects,activityDeleteCascade_objects,
      Table.delete,List.mem_filter]
    simp

abbrev insertResolutions (new rows : List Resolution) : List Resolution :=
  Table.insertAllIgnore (fun new row => row = new) new rows

theorem nodup_insertResolutions {new rows : List Resolution} (h : rows.Nodup) :
    (insertResolutions new rows).Nodup := by
  unfold insertResolutions Table.insertAllIgnore
  induction new generalizing rows with
  | nil => exact h
  | cons r new ih =>
    refine ih ?_
    have hkey : ((Table.insertIgnore (fun row => decide (row = r)) r rows).map id).Nodup :=
      Table.nodup_insertIgnore (by rwa [List.map_id]) fun row hrow => decide_eq_true hrow
    rwa [List.map_id] at hkey

theorem mem_insertResolutions {new rows : List Resolution} {r : Resolution} :
    r ∈ insertResolutions new rows ↔ r ∈ rows ∨ r ∈ new := by
  have hany : ∀ l : List Resolution, l.any (fun row => row = r) = true ↔ r ∈ l := by
    intro l
    simp
  rw [← hany,insertResolutions,Table.any_insertAllIgnore,Bool.or_eq_true,hany,hany]
  intro new row hrow
  rw [of_decide_eq_true hrow]

theorem mem_recipients {id : Text} : id ∈ recipients w d o ↔
    (id ∈ addresses w o.toJson ∨ id ∈ addresses w o.ccJson) ∧ isLocal w id = false ∧
      isSafeRemoteUrl w.platform id = true ∧
        isActorBlockedStrict w.platform d.blockedDomains d.blockedActors id = false := by
  simp only [recipients,List.mem_filter,List.mem_eraseDups,List.mem_append,Bool.and_eq_true,
    Bool.not_eq_true',and_assoc]

/-- What the guard asserts, the row that was read has; only `others` is not asserted. -/
theorem eq_of_guardedOwnedDm (h : guardedOwnedDm m d = true) (htype : m.type = .note)
    (hvisibility : m.visibility = .direct) (hcommunity : m.communityApId = none)
    (hothers : ∀ o ∈ d.objects, o.apId = m.apId → o.others = m.others) :
    m ∈ d.objects ∧ ownedDmScope d m.apId m = true := by
  obtain ⟨o,ho,hall⟩ := List.any_eq_true.mp h
  simp only [Bool.and_eq_true,decide_eq_true_eq] at hall
  obtain ⟨⟨⟨⟨⟨⟨⟨⟨hscope,hby⟩,hcontent⟩,hpublished⟩,hupdated⟩,hattachments⟩,hto⟩,hcc⟩,hconv⟩ := hall
  have hscope' := hscope
  simp only [ownedDmScope,Bool.and_eq_true,decide_eq_true_eq] at hscope'
  obtain ⟨⟨⟨⟨hid,hvis⟩,hnote⟩,hnone⟩,_⟩ := hscope'
  have heq : o = m := by
    have hrest := hothers o ho hid
    cases o
    cases m
    simp only at *
    subst hid hby hcontent hpublished hupdated hattachments hto hcc hconv hrest
    rw [hvis,hnote,hnone,htype,hvisibility,hcommunity]
  rw [heq] at ho hscope
  exact ⟨ho,hscope⟩

theorem valid_iff : d.valid = true ↔ (d.objects.map (·.apId)).Nodup ∧ d.resolutions.Nodup := by
  rw [Db.valid,Bool.and_eq_true,decide_eq_true_eq,decide_eq_true_eq]

theorem valid_commit {id : Text} (h : d.valid = true) :
    (commit w id m write who d).valid = true := by
  obtain ⟨hids,hnodup⟩ := valid_iff.mp h
  refine valid_iff.mpr ⟨?_,nodup_insertResolutions (hnodup.sublist sublist_applyWrite)⟩
  rw [commit,insertDelivery_objects]
  cases write with
  | edit content updated =>
    change ((Table.update _ _ d.objects).map _).Nodup
    rw [Table.map_update]
    · exact hids
    · exact fun _ => rfl
  | delete jobs => exact hids.sublist (List.filter_sublist.map _)

end batches

section stages

variable {w : Site} {d d' : Db} {m : Object} {stage : Stage} {now : Text} {r : Request}
  {write : Write} {who : List Text}

def Stage.message : Stage → Option Object
  | .cascade m | .authors m _ | .attached m _ | .prepare m _ | .commit m _ _ => some m
  | _ => none

def Stage.unwritten : Stage → Bool
  | .purge _ | .publish => false
  | .done status => status ≠ 200
  | _ => true

theorem header_of_matched {header revision : Text}
    (h : revisionError (some header) revision = none) : header = quoted revision := by
  unfold revisionError at h
  rw [Option.bind_some] at h
  split at h
  · cases h
  · split at h
    · cases h
    · rename_i heq
      exact not_not.mp heq

theorem find_message (h : (find w now d r).message = some m) : m ∈ d.objects ∧
    ownedDmScope d r.messageId m = true ∧ m.attributedTo = r.actorApId ∧
      revisionError r.ifMatch (ownedDmRevision w m) = none := by
  unfold find at h
  cases hwrite : r.mutation.write now with
  | none =>
    rw [hwrite] at h
    cases h
  | some write =>
    cases hfind : d.objects.find? (ownedDmScope d r.messageId) with
    | none =>
      rw [hwrite,hfind] at h
      cases h
    | some o =>
      rw [hwrite,hfind] at h
      dsimp only at h
      split at h
      · cases h
      · rename_i howned
        cases herror : revisionError r.ifMatch (ownedDmRevision w o) with
        | some status =>
          rw [herror] at h
          cases h
        | none =>
          rw [herror] at h
          have hm : o = m := by
            cases hmut : r.mutation with
            | edit content =>
              rw [hmut] at h
              exact Option.some.inj h
            | delete =>
              rw [hmut] at h
              exact Option.some.inj h
          subst hm
          exact ⟨List.mem_of_find?_eq_some hfind,List.find?_some hfind,not_not.mp howned,herror⟩

theorem find_ne_commit : find w now d r ≠ .commit m write who := by
  unfold find
  intro h
  split at h
  · cases h
  · split at h
    · cases h
    · split at h
      · cases h
      · split at h
        · cases h
        · split at h <;> cases h

theorem planned_cases (message row : Object) (jobs : List Media) :
    planned message row jobs = .done 409 ∨
      planned message row jobs = .prepare message (.delete jobs) := by
  unfold planned
  split
  · exact Or.inl rfl
  · exact Or.inr rfl

theorem read_spec (h : stage.unwritten = true) (hfind : stage ≠ .find)
    (hcommit : ∀ m write who, stage ≠ .commit m write who) :
    (read w now d r stage).unwritten = true ∧
      (∀ m, (read w now d r stage).message = some m → stage.message = some m) ∧
      ∀ m write who, read w now d r stage = .commit m write who → who = recipients w d m := by
  have hplanned : ∀ message row jobs, (planned message row jobs).unwritten = true ∧
      (∀ m, (planned message row jobs).message = some m → some message = some m) ∧
      ∀ m write who, planned message row jobs = .commit m write who → who = recipients w d m := by
    intro message row jobs
    rcases planned_cases message row jobs with hp | hp <;> rw [hp]
    · exact ⟨rfl,fun _ hm => (by cases hm),fun _ _ _ hm => (by cases hm)⟩
    · exact ⟨rfl,fun _ hm => hm,fun _ _ _ hm => (by cases hm)⟩
  cases stage with
  | find => exact absurd rfl hfind
  | cascade message =>
    unfold read
    dsimp only
    split
    · exact ⟨rfl,fun _ hm => (by cases hm),fun _ _ _ hm => (by cases hm)⟩
    · split
      · exact ⟨rfl,fun _ hm => hm,fun _ _ _ hm => (by cases hm)⟩
      · exact hplanned _ _ _
  | authors message row =>
    unfold read
    dsimp only
    split
    · exact ⟨rfl,fun _ hm => hm,fun _ _ _ hm => (by cases hm)⟩
    · exact hplanned _ _ _
  | attached message row => exact hplanned _ _ _
  | prepare message write =>
    refine ⟨rfl,fun _ hm => hm,fun m write' who hm => ?_⟩
    cases hm
    rfl
  | commit message write who => exact absurd rfl (hcommit _ _ _)
  | purge keys => cases h
  | publish => cases h
  | done status => exact ⟨h,fun _ hm => (by cases hm),fun _ _ _ hm => (by cases hm)⟩

end stages

section runs

variable {w : Site} {d d' d₀ : Db} {s t : State} {c : Call} {m : Object} {r : Request} {i : Input}
  {write : Write} {who : List Text}

structure Read (w : Site) (d : Db) (r : Request) (m : Object) : Prop where
  owned : m.attributedTo = r.actorApId
  id : m.apId = r.messageId
  type : m.type = .note
  visibility : m.visibility = .direct
  community : m.communityApId = none
  matched : revisionError r.ifMatch (ownedDmRevision w m) = none
  others : ∀ o ∈ d.objects, o.apId = m.apId → o.others = m.others

structure Ok (w : Site) (d : Db) (c : Call) : Prop where
  read : ∀ m, c.stage.message = some m → Read w d c.request m
  recipients : ∀ m write who, c.stage = .commit m write who → who = recipients w d m
  unwritten : c.stage.unwritten = true → c.wrote = false

/-- No message comes in or changes a column that mutations do not name. -/
structure Evolves (d d' : Db) : Prop where
  others : ∀ o ∈ d'.objects, ∃ p ∈ d.objects, p.apId = o.apId ∧ p.others = o.others
  domains : d'.blockedDomains = d.blockedDomains
  actors : d'.blockedActors = d.blockedActors

theorem Evolves.refl (d : Db) : Evolves d d := ⟨fun o ho => ⟨o,ho,rfl,rfl⟩,rfl,rfl⟩

theorem Evolves.recipients (h : Evolves d d') : recipients w d' m = recipients w d m := by
  unfold DmMutations.recipients
  rw [h.domains,h.actors]

theorem Read.evolves (h : Read w d r m) (he : Evolves d d') : Read w d' r m := by
  refine { h with others := fun o ho hid => ?_ }
  obtain ⟨p,hp,hpid,hothers⟩ := he.others o ho
  rw [← hothers]
  exact h.others p hp (hpid.trans hid)

theorem Ok.evolves (h : Ok w d c) (he : Evolves d d') : Ok w d' c :=
  ⟨fun m hm => (h.read m hm).evolves he,
    fun m write who hstage => (h.recipients m write who hstage).trans he.recipients.symm,
    h.unwritten⟩

theorem Read.of_find (hvalid : d.valid = true) {now : Text}
    (h : (find w now d r).message = some m) : Read w d r m := by
  obtain ⟨hin,hscope,howned,hmatched⟩ := find_message h
  simp only [ownedDmScope,Bool.and_eq_true,decide_eq_true_eq] at hscope
  obtain ⟨⟨⟨⟨hid,hvis⟩,hnote⟩,hnone⟩,_⟩ := hscope
  refine ⟨howned,hid,hnote,hvis,hnone,hmatched,fun o ho heq => ?_⟩
  rw [Db.eq_of_apId hvalid ho hin heq]

theorem evolves_commit {id : Text} (hm : m ∈ d.objects) (h : d.valid = true) :
    Evolves d (commit w id m write who d) := by
  refine ⟨fun o ho => ?_,applyWrite_lists.1,applyWrite_lists.2⟩
  rcases (mem_applyWrite hm h).mp ho with ⟨ho,_⟩ | hresult
  · exact ⟨o,ho,rfl,rfl⟩
  · cases write with
    | delete jobs => cases hresult
    | edit content updated =>
      cases hresult
      exact ⟨m,hm,rfl,rfl⟩

theorem sound_commit (hread : Read w d r m) (hguard : guardedOwnedDm m d = true)
    (hto : who = recipients w d m) (h : d.valid = true) :
    Sound w ⟨r,m,write,d,commit w r.activityApId m write who d⟩ := by
  obtain ⟨hin,hscope⟩ := eq_of_guardedOwnedDm hguard hread.type hread.visibility hread.community
    hread.others
  subst hto
  have hrows : ∀ x, x ∈ (commit w r.activityApId m write (recipients w d m) d).resolutions ↔
      x ∈ (applyWrite m.apId write d).resolutions ∨
        x ∈ ((recipients w d m).filter fun recipient =>
          !d.remoteActorTombstones.contains recipient).map
            fun recipient => ⟨r.activityApId,recipient⟩ := by
    intro x
    rw [← @applyWrite_tombstones d m.apId write]
    exact mem_insertResolutions
  refine ⟨fun header hheader => ?_,⟨hin,hread.id,hread.id ▸ hscope⟩,hread.owned,
    fun o => mem_applyWrite hin h,?_,fun id haddr hremote hsafe hblocked hkept => ?_,
    fun x hx => ?_⟩
  · have hmatched := hread.matched
    dsimp only at hheader
    rw [hheader] at hmatched
    exact header_of_matched hmatched
  · exact List.mem_append_right _ (List.mem_singleton_self _)
  · have hin : (⟨r.activityApId,id⟩ : Resolution) ∈
        (commit w r.activityApId m write (recipients w d m) d).resolutions :=
      (hrows _).mpr (Or.inr (List.mem_map.mpr ⟨id,List.mem_filter.mpr
        ⟨mem_recipients.mpr ⟨haddr,hremote,hsafe,hblocked⟩,by simpa using hkept⟩,rfl⟩))
    exact List.count_eq_one_of_mem (valid_iff.mp (valid_commit h)).2 hin
  · rcases (hrows x).mp hx with hx | hx
    · exact Or.inl (sublist_applyWrite.subset hx)
    · obtain ⟨recipient,hrecipient,rfl⟩ := List.mem_map.mp hx
      obtain ⟨hmem,hkept⟩ := List.mem_filter.mp hrecipient
      exact Or.inr ⟨rfl,hmem,by simpa using hkept⟩

/-- Each commit reads the row that the commit before it on the same message has written. -/
def Restored : List Commit → Prop
  | [] => True
  | d :: older => (∀ e, older.find? (fun e => e.read.apId = d.read.apId) = some e →
      WroteBack e d) ∧ Restored older

structure Kept (w : Site) (s : State) : Prop where
  valid : s.db.valid = true
  sound : ∀ c ∈ s.log, Sound w c
  latest : ∀ o ∈ s.db.objects, ∀ e, s.log.find? (fun e => e.read.apId = o.apId) = some e →
    ∃ updated, e.write = .edit o.content updated ∧ o.updated = some updated
  restored : Restored s.log

theorem Kept.commit (h : Kept w s) (hread : Read w s.db r m)
    (hguard : guardedOwnedDm m s.db = true) (hto : who = recipients w s.db m) :
    Kept w ⟨commit w r.activityApId m write who s.db,
      ⟨r,m,write,s.db,commit w r.activityApId m write who s.db⟩ :: s.log⟩ := by
  obtain ⟨hin,_⟩ := eq_of_guardedOwnedDm hguard hread.type hread.visibility hread.community
    hread.others
  refine ⟨valid_commit h.valid,fun c hc => ?_,fun o ho e he => ?_,fun e he => ?_,h.restored⟩
  · rcases List.mem_cons.mp hc with rfl | hc
    · exact sound_commit hread hguard hto h.valid
    · exact h.sound c hc
  · rw [List.find?_cons] at he
    rcases (mem_applyWrite hin h.valid).mp ho with ⟨ho,hne⟩ | hresult
    · rw [decide_eq_false (Ne.symm hne)] at he
      exact h.latest o ho e he
    · cases write with
      | delete jobs => cases hresult
      | edit content updated =>
        cases hresult
        rw [decide_eq_true rfl] at he
        cases he
        exact ⟨updated,rfl,rfl⟩
  · have hid := List.find?_some he
    exact ⟨of_decide_eq_true hid,h.latest m hin e he⟩

theorem Kept.others (h : Kept w s) (hd : possible d s = true) : Kept w { s with db := d } := by
  simp only [possible,Bool.and_eq_true,decide_eq_true_eq] at hd
  exact ⟨hd.1.1.1,h.sound,
    fun o ho => h.latest o ((List.isSublist_iff_sublist.mp hd.1.1.2).subset ho),h.restored⟩

theorem Evolves.others_write (hd : possible d s = true) : Evolves s.db d := by
  simp only [possible,Bool.and_eq_true,decide_eq_true_eq] at hd
  exact ⟨fun o ho => ⟨o,(List.isSublist_iff_sublist.mp hd.1.1.2).subset ho,rfl,rfl⟩,hd.1.2,hd.2⟩

/-- A step that reads, or fails to. -/
theorem Ok.reads (h : Ok w s.db c) (hk : Kept w s) (hu : c.stage.unwritten = true)
    (hcommit : ∀ m write who, c.stage ≠ .commit m write who) :
    Ok w s.db ⟨c.request,
      if i.fails then .done 500 else DmMutations.read w i.now s.db c.request c.stage,
      c.wrote || decide (s.db ≠ s.db)⟩ := by
  have hwrote : (c.wrote || decide (s.db ≠ s.db)) = false := by
    rw [h.unwritten hu]
    simp
  rw [hwrote]
  split
  · exact ⟨fun m hm => (by cases hm),fun _ _ _ hm => (by cases hm),fun _ => rfl⟩
  · by_cases hfind : c.stage = .find
    · rw [hfind]
      refine ⟨fun m hm => Read.of_find hk.valid hm,fun m write who hm => ?_,fun _ => rfl⟩
      exact absurd hm find_ne_commit
    · obtain ⟨_,hmessage,hrecipients⟩ :=
        @read_spec w s.db c.stage i.now c.request hu hfind hcommit
      exact ⟨fun m hm => h.read m (hmessage m hm),hrecipients,fun _ => rfl⟩

theorem work_spec (hk : Kept w s) (h : Ok w s.db c) (hrun : c.stage.running = true) :
    Kept w (work w i s c).1 ∧ Ok w (work w i s c).1.db (work w i s c).2 ∧
      Evolves s.db (work w i s c).1.db := by
  obtain ⟨r,stage,wrote⟩ := c
  have hreads : ∀ st, stage = st → st.unwritten = true → (∀ m write who, st ≠ .commit m write who) →
      work w i s ⟨r,st,wrote⟩ = (s,⟨r,if i.fails then .done 500 else read w i.now s.db r st,
        wrote || decide (s.db ≠ s.db)⟩) →
      Kept w (work w i s ⟨r,st,wrote⟩).1 ∧
        Ok w (work w i s ⟨r,st,wrote⟩).1.db (work w i s ⟨r,st,wrote⟩).2 ∧
          Evolves s.db (work w i s ⟨r,st,wrote⟩).1.db := by
    intro st hst hu hcommit hwork
    subst hst
    rw [hwork]
    exact ⟨hk,h.reads hk hu hcommit,Evolves.refl _⟩
  cases stage with
  | find => exact hreads _ rfl rfl (fun _ _ _ h => (by cases h)) rfl
  | cascade m => exact hreads _ rfl rfl (fun _ _ _ h => (by cases h)) rfl
  | authors m row => exact hreads _ rfl rfl (fun _ _ _ h => (by cases h)) rfl
  | attached m row => exact hreads _ rfl rfl (fun _ _ _ h => (by cases h)) rfl
  | prepare m write => exact hreads _ rfl rfl (fun _ _ _ h => (by cases h)) rfl
  | commit m write who =>
    have hread := h.read m rfl
    have hto := h.recipients m write who rfl
    have hwrote := h.unwritten rfl
    have hfailed : ∀ status, Ok w s.db ⟨r,.done status,wrote || decide (s.db ≠ s.db)⟩ := by
      intro status
      refine ⟨fun m hm => (by cases hm),fun _ _ _ hm => (by cases hm),fun _ => ?_⟩
      dsimp only at hwrote
      simp [hwrote]
    unfold work act
    dsimp only
    split
    · exact ⟨hk,hfailed 500,Evolves.refl _⟩
    · split
      · exact ⟨hk,hfailed 409,Evolves.refl _⟩
      · rename_i hguard
        have hguard := Bool.eq_true_of_not_eq_false hguard
        split
        · exact ⟨hk,hfailed 500,Evolves.refl _⟩
        · obtain ⟨hin,_⟩ := eq_of_guardedOwnedDm hguard hread.type hread.visibility
            hread.community hread.others
          refine ⟨hk.commit hread hguard hto,?_,evolves_commit hin hk.valid⟩
          cases write with
          | edit content updated =>
            exact ⟨fun m hm => (by cases hm),fun _ _ _ hm => (by cases hm),fun hu => (by cases hu)⟩
          | delete jobs =>
            exact ⟨fun m hm => (by cases hm),fun _ _ _ hm => (by cases hm),fun hu => (by cases hu)⟩
  | purge keys =>
    refine ⟨⟨hk.valid,hk.sound,hk.latest,hk.restored⟩,?_,⟨fun o ho => ⟨o,ho,rfl,rfl⟩,rfl,rfl⟩⟩
    exact ⟨fun m hm => (by cases hm),fun _ _ _ hm => (by cases hm),fun hu => (by cases hu)⟩
  | publish =>
    refine ⟨hk,?_,Evolves.refl _⟩
    exact ⟨fun m hm => (by cases hm),fun _ _ _ hm => (by cases hm),fun hu => (by cases hu)⟩
  | done status => cases hrun

theorem threads_stable (w : Site) :
    (threads w).Stable (Kept w) fun _ s c => Ok w s.db c where
  own i p s c t y hk hc hn := by
    obtain ⟨hrun,hwork⟩ := Threads.guarded_next.mp hn
    have hspec := work_spec (i := i) hk hc hrun
    rw [hwork] at hspec
    exact ⟨hspec.1,hspec.2.1⟩
  other i p q s c t y z hk hc hq _ hn := by
    obtain ⟨hrun,hwork⟩ := Threads.guarded_next.mp hn
    have hspec := work_spec (i := i) hk hc hrun
    rw [hwork] at hspec
    exact hq.evolves hspec.2.2
  env d s t hk hn := by
    obtain ⟨hd,rfl⟩ := Threads.guarded_env.mp hn
    exact ⟨hk.others hd,fun q z hz => hz.evolves (Evolves.others_write hd)⟩

theorem Restored.suffix {new old : List Commit} (h : Restored (new ++ old)) : Restored old := by
  induction new with
  | nil => exact h
  | cons c new ih => exact ih h.2

theorem Restored.wroteBack {mid old : List Commit} {c d : Commit}
    (h : Restored (d :: (mid ++ c :: old))) (heq : c.read.apId = d.read.apId) :
    ∃ e ∈ mid ++ [c], WroteBack e d := by
  have hsome : ((mid ++ [c]).find? fun e => e.read.apId = d.read.apId).isSome = true := by
    rw [List.find?_isSome]
    exact ⟨c,List.mem_append_right _ (List.mem_singleton_self c),decide_eq_true heq⟩
  obtain ⟨e,he⟩ := Option.isSome_iff_exists.mp hsome
  refine ⟨e,List.mem_of_find?_eq_some he,h.1 e ?_⟩
  rw [show mid ++ c :: old = (mid ++ [c]) ++ old by simp,List.find?_append,he,Option.some_or]

theorem quoted_inj {a b : Text} (h : quoted a = quoted b) : a = b :=
  List.append_cancel_right (List.cons.inj h).2

theorem Kept.guarded {p : Pool} (hk : Kept w p.store)
    (hok : ∀ q, Ok w p.store.db (p.thread q)) : Guarded w p := by
  refine ⟨hk.sound,fun new mid old c d hlog hid hsome hheader => ?_,fun q status hstage hne => ?_⟩
  · have hd : d ∈ p.store.log := by
      rw [hlog]
      simp
    have hc : c ∈ p.store.log := by
      rw [hlog]
      simp
    have hds := hk.sound d hd
    have hcs := hk.sound c hc
    obtain ⟨header,hh⟩ := Option.isSome_iff_exists.mp hsome
    refine ⟨quoted_inj ?_,?_⟩
    · rw [← hds.matched header (hheader.trans hh),hcs.matched header hh]
    · have hrestored := hk.restored
      rw [hlog] at hrestored
      refine hrestored.suffix.wroteBack ?_
      rw [hcs.current.2.1,hds.current.2.1,hid]
  · refine (hok q).unwritten ?_
    rw [hstage]
    exact decide_eq_true hne

end runs

section results

def edited : Object :=
  { apId := "https://yurucommu.example/ap/objects/m".toList
    attributedTo := "https://yurucommu.example/ap/users/alice".toList
    content := "hi".toList
    conversation := none
    toJson := ("[\"https://remote.example/users/followers\"," ++
    "\"https://remote.example/users/bob\"]").toList
    published := "2026-01-01T00:00:00.000Z".toList
    updated := some "2026-01-01T00:00:01.000Z".toList }

def digest : Text := "f5674771c25921479ec1fec115dee7abf84a78e77fc652f75b4b2a1263de4398".toList

def gone : Text := "https://remote.example/users/bob".toList

def mailbox : Site where
  platform := ActorIdentity.plainHosts
  appUrl := "https://yurucommu.example".toList
  sha256Hex values :=
    if values = [some edited.apId,some edited.attributedTo,some edited.content,
        some edited.published,edited.updated,some edited.attachmentsJson,some edited.toJson,
        some edited.ccJson,none,none] then digest
    else List.replicate 64 '0'
  strings json :=
    if json = edited.toJson then ["https://remote.example/users/followers".toList,gone] else []
  attachedKeys _ := []

def again (p : Nat) : Request :=
  ⟨edited.attributedTo,edited.apId,some (quoted (ownedDmRevision mailbox edited)),
    .edit (some "hi".toList),"https://yurucommu.example/ap/activities/".toList ++ Nat.toDigits 10 p⟩

def sameMillisecond : List (Threads.Label Input Db) :=
  [0,1].flatMap fun p => List.replicate 4 (.act p { now := "2026-01-01T00:00:01.000Z".toList })

def stored : Db := { objects := [edited], remoteActorTombstones := [gone] }

def edits : Pool := begin stored again

def editedAgain : Pool := ((threads mailbox).machine.run sameMillisecond edits).getD edits

def summary (c : Commit) : (Request × Object) × Nat × List Text × List Text :=
  ((c.request,c.read),c.after.resolutions.length,c.before.blockedDomains,c.before.blockedActors)

theorem run_edits : ((threads mailbox).machine.run sameMillisecond edits).elim []
    (fun t => t.store.log.map summary) =
      [((again 1,edited),0,[],[]),((again 0,edited),0,[],[])] := by
  decide +kernel

theorem run_editedAgain :
    (threads mailbox).machine.run sameMillisecond edits = some editedAgain := by
  have hrun := run_edits
  cases ht : (threads mailbox).machine.run sameMillisecond edits with
  | none =>
    rw [ht] at hrun
    cases hrun
  | some t =>
    rw [editedAgain,ht]
    rfl

theorem log_editedAgain : editedAgain.store.log.map summary =
    [((again 1,edited),0,[],[]),((again 0,edited),0,[],[])] := by
  have hrun := run_edits
  rwa [run_editedAgain,Option.elim_some] at hrun

def Delivered (w : Site) (listed : Text → List Text) (s : Pool) : Prop :=
  ∀ c ∈ s.store.log, ∀ id ∈ listed c.read.toJson, isLocal w id = false →
    isSafeRemoteUrl w.platform id = true →
    isActorBlockedStrict w.platform c.before.blockedDomains c.before.blockedActors id = false →
      c.after.resolutions.count ⟨c.request.activityApId,id⟩ = 1

theorem not_delivered {listed : Text → List Text} {id : Text} (hid : id ∈ listed edited.toJson)
    (hremote : isLocal mailbox id = false) (hsafe : isSafeRemoteUrl mailbox.platform id = true)
    (hfree : isActorBlockedStrict mailbox.platform [] [] id = false) :
    ¬Delivered mailbox listed editedAgain := by
  intro h
  obtain ⟨e,rest,hlog,he,_⟩ := List.map_eq_cons_iff.mp log_editedAgain
  have hread : e.read = edited := congrArg (·.1.2) he
  have hin : e ∈ editedAgain.store.log := by
    rw [hlog]
    exact List.mem_cons_self
  have hnone : e.after.resolutions = [] := List.length_eq_zero_iff.mp (congrArg (·.2.1) he)
  have hdomains : e.before.blockedDomains = [] := congrArg (·.2.2.1) he
  have hactors : e.before.blockedActors = [] := congrArg (·.2.2.2) he
  have hcount := h e hin id (hread ▸ hid) hremote hsafe (by rw [hdomains,hactors]; exact hfree)
  rw [hnone] at hcount
  cases hcount

end results

end Yurucommu.DmMutations
