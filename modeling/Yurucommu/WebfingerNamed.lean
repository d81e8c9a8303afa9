import Yurucommu.Webfinger

/-!
When every local identity is named by its own handle.
-/

set_option autoImplicit false

namespace Yurucommu.Webfinger

open Whatwg (Text)

section sane

variable {S : Site} {d d' : Db} {op : Op}

/-- The rows have ids of their own, and a live one is named as its id says. -/
structure Sane (S : Site) (d : Db) : Prop where
  ids : (d.actors.map Actor.apId).Nodup
  minted : ∀ a ∈ d.actors, a.deleted = false →
    a.apId = actorApId S a.preferredUsername ∧ a.preferredUsername ≠ []
  groupIds : (d.communities.map Community.apId).Nodup
  groups : ∀ c ∈ d.communities, c.apId = communityApId S c.preferredUsername ∧
    c.preferredUsername ≠ [] ∧ c.preferredUsername.all isWordChar = true

theorem sane_start : Sane S {} where
  ids := List.nodup_nil
  minted _ h := by cases h
  groupIds := List.nodup_nil
  groups _ h := by cases h

theorem Sane.createActor {username : Text} (h : Sane S d) (hne : username ≠ [])
    (ht : createActor S username d = some d') : Sane S d' := by
  unfold Webfinger.createActor at ht
  dsimp only at ht
  rw [Option.ite_none_left_eq_some] at ht
  obtain ⟨_,ht⟩ := ht
  split at ht
  · cases ht
    refine { h with
      ids := ?_
      minted := fun a ha hlive => ?_ }
    · have hsame : (d.actors.map fun a => if a.apId = actorApId S username then
          (⟨actorApId S username,username,false⟩ : Actor) else a).map Actor.apId =
          d.actors.map Actor.apId := by
        rw [List.map_map]
        refine List.map_congr_left fun a _ => ?_
        by_cases hid : a.apId = actorApId S username
        · simp [hid]
        · simp [hid]
      rw [hsame]
      exact h.ids
    · obtain ⟨b,hb,rfl⟩ := List.mem_map.1 ha
      by_cases hid : b.apId = actorApId S username
      · rw [if_pos hid]
        exact ⟨rfl,hne⟩
      · rw [if_neg hid] at hlive ⊢
        exact h.minted b hb hlive
  next hno =>
    rw [Option.ite_none_left_eq_some] at ht
    obtain ⟨hlive,ht⟩ := ht
    cases ht
    have hfresh : ∀ a ∈ d.actors, a.apId ≠ actorApId S username := by
      intro a ha hid
      cases hdeleted : a.deleted with
      | true => exact hno (List.any_eq_true.2 ⟨a,ha,by simp [hid,hdeleted]⟩)
      | false => exact hlive (List.any_eq_true.2 ⟨a,ha,by simp [hid,hdeleted]⟩)
    refine { h with
      ids := ?_
      minted := fun a ha hl => ?_ }
    · rw [List.map_append,List.map_singleton]
      refine List.Nodup.append h.ids (List.nodup_singleton _) fun id hid hmem => ?_
      obtain ⟨a,ha,rfl⟩ := List.mem_map.1 hid
      exact hfresh a ha (List.mem_singleton.1 hmem)
    · rcases List.mem_append.1 ha with ha | ha
      · exact h.minted a ha hl
      · obtain rfl := List.mem_singleton.1 ha
        exact ⟨rfl,hne⟩

theorem numbered_ne_nil {base : Text} (h : base ≠ []) (counter : Nat) :
    numbered base counter ≠ [] := by
  unfold numbered
  split
  · exact h
  · simp [h]

theorem word_of_validate {name : Text} (h : validateCommunityName name = none) :
    name ≠ [] ∧ name.all isWordChar = true := by
  unfold validateCommunityName at h
  split at h
  · cases h
  next hshort =>
    split at h
    · cases h
    · split at h
      · cases h
      next hword =>
        refine ⟨?_,by simpa using hword⟩
        rintro rfl
        exact hshort (by decide)

theorem Sane.step (h : Sane S d) (ht : (machine S).step op d = some d') : Sane S d' := by
  cases op with
  | account username =>
    obtain ⟨hvalid,ht⟩ := Option.ite_none_right_eq_some.1 ht
    exact h.createActor hvalid.1 ht
  | oauth base counter =>
    obtain ⟨hvalid,ht⟩ := Option.ite_none_right_eq_some.1 ht
    exact h.createActor (numbered_ne_nil hvalid.1 counter) ht
  | password => exact h.createActor (by decide) ht
  | deleteAccount apId name =>
    obtain ⟨_,ht⟩ := Option.ite_none_left_eq_some.1 ht
    cases ht
    refine { h with
      ids := ?_
      minted := fun a ha hlive => ?_ }
    · have hsame : (d.actors.map fun a => if a.apId = apId then
          { a with preferredUsername := name, deleted := true } else a).map Actor.apId =
          d.actors.map Actor.apId := by
        rw [List.map_map]
        refine List.map_congr_left fun a _ => ?_
        by_cases hid : a.apId = apId
        · simp [hid]
        · simp [hid]
      rw [hsame]
      exact h.ids
    · obtain ⟨b,hb,rfl⟩ := List.mem_map.1 ha
      by_cases hid : b.apId = apId
      · rw [if_pos hid] at hlive
        cases hlive
      · rw [if_neg hid] at hlive ⊢
        exact h.minted b hb hlive
  | createCommunity name =>
    obtain ⟨⟨hvalid,hfresh⟩,ht⟩ := Option.ite_none_right_eq_some.1 ht
    obtain ⟨hne,hword⟩ := word_of_validate hvalid
    cases ht
    refine { h with
      groupIds := ?_
      groups := fun c hc => ?_ }
    · rw [List.map_append,List.map_singleton]
      refine List.Nodup.append h.groupIds (List.nodup_singleton _) fun id hid hmem => ?_
      obtain ⟨c,hc,rfl⟩ := List.mem_map.1 hid
      have hno := List.any_eq_false.1 hfresh c hc
      rw [List.mem_singleton.1 hmem] at hno
      simp at hno
    · rcases List.mem_append.1 hc with hc | hc
      · exact h.groups c hc
      · obtain rfl := List.mem_singleton.1 hc
        exact ⟨rfl,hne,hword⟩
  | setCommunity apId deleted isPublic =>
    cases ht
    refine { h with
      groupIds := ?_
      groups := fun c hc => ?_ }
    · have hsame : (d.communities.map fun c => if c.apId = apId then
          { c with deleted := deleted, isPublic := isPublic } else c).map Community.apId =
          d.communities.map Community.apId := by
        rw [List.map_map]
        refine List.map_congr_left fun c _ => ?_
        by_cases hid : c.apId = apId
        · simp [hid]
        · simp [hid]
      rw [hsame]
      exact h.groupIds
    · obtain ⟨b,hb,rfl⟩ := List.mem_map.1 hc
      by_cases hid : b.apId = apId
      · rw [if_pos hid]
        exact h.groups b hb
      · rw [if_neg hid]
        exact h.groups b hb

end sane

section resources

variable {S : Site} {K : Picker} {d : Db} {username : Text}

theorem takeWhile_of_not_mem {c : Char} {x y : Text} (h : c ∉ x) :
    (x ++ c :: y).takeWhile (· ≠ c) = x ∧ (x ++ c :: y).dropWhile (· ≠ c) = c :: y := by
  have hx : ∀ b ∈ x, decide (b ≠ c) = true := fun b hb => decide_eq_true fun hbc => h (hbc ▸ hb)
  rw [List.takeWhile_append_of_pos hx,List.dropWhile_append_of_pos hx]
  simp

theorem acct_eq (S : Site) (username : Text) :
    acct S username = "acct:".toList ++ (username ++ '@' :: S.domain) := by
  unfold acct
  rw [List.append_assoc]

theorem acct_schemed (S : Site) (username : Text) : "acct:".toList <+: acct S username :=
  ⟨_,(acct_eq S username).symm⟩

theorem parse_acct (S : Site) (username : Text) (h : '@' ∉ username) :
    parseResource S (acct S username) = some (username,S.domain) := by
  have hdomain : S.domain.takeWhile (· ≠ '@') = S.domain :=
    List.takeWhile_eq_self_iff.2 fun c hc => decide_eq_true fun heq => S.named.2.1 (heq ▸ hc)
  obtain ⟨htake,hdrop⟩ := takeWhile_of_not_mem (y := S.domain) h
  have hbody : (acct S username).drop 5 = username ++ '@' :: S.domain := by
    rw [acct_eq]
    rfl
  have hparts : acctParts (username ++ '@' :: S.domain) = (username,some S.domain) := by
    rw [acctParts,htake,hdrop]
    simp only [hdomain]
  simp only [parseResource,if_pos (acct_schemed S username),hbody,hparts,S.named.2.2]

theorem webfinger_acct (S : Site) (K : Picker) (d : Db) (h : '@' ∉ username) (hne : username ≠ []) :
    webfinger S K d (acct S username) = lookup S K d username := by
  rw [webfinger,parse_acct S username h]
  simp only [hne,S.named.1,false_or,if_false,ne_eq,not_true]

theorem webfinger_cut (S : Site) (K : Picker) (d : Db) (h : '@' ∈ username) :
    ∃ name, '@' ∉ name ∧ (webfinger S K d (acct S username) = lookup S K d name ∨
      webfinger S K d (acct S username) = .invalid ∨
      webfinger S K d (acct S username) = .notFound) := by
  obtain ⟨name,rest,rfl,hname⟩ := List.eq_append_cons_of_mem h
  obtain ⟨htake,hdrop⟩ := takeWhile_of_not_mem (y := rest ++ '@' :: S.domain) hname
  have hbody : (acct S (name ++ '@' :: rest)).drop 5 =
      name ++ '@' :: (rest ++ '@' :: S.domain) := by
    rw [acct_eq,List.append_assoc,List.cons_append]
    rfl
  have hparse : parseResource S (acct S (name ++ '@' :: rest)) =
      some (name,S.toLowerCase ((rest ++ '@' :: S.domain).takeWhile (· ≠ '@'))) := by
    simp only [parseResource,if_pos (acct_schemed S _),hbody,acctParts,htake,hdrop]
  refine ⟨name,hname,?_⟩
  rw [webfinger,hparse]
  dsimp only
  split
  · exact .inr (.inl rfl)
  · split
    · exact .inr (.inr rfl)
    · exact .inl rfl

theorem not_acct_base (S : Site) (rest : Text) : ¬"acct:".toList <+: S.baseUrl ++ rest := by
  obtain ⟨tail,htail⟩ := S.http
  rintro ⟨more,hmore⟩
  rw [← htail] at hmore
  cases hmore

theorem parse_url (S : Site) (path : Text) :
    parseResource S (S.baseUrl ++ '/' :: path) =
      (usersMatch (S.baseUrl ++ '/' :: path)).map fun username => (username,S.domain) := by
  have hhttp : "http".toList <+: S.baseUrl ++ '/' :: path := S.http.trans (List.prefix_append _ _)
  rw [parseResource,if_neg (not_acct_base S _),if_pos hhttp,S.hosted]
  cases usersMatch (S.baseUrl ++ '/' :: path) <;> rfl

theorem usersMatch_append {before name : Text} (h : '/' ∉ name) :
    usersMatch (before ++ '/' :: name) =
      if name ≠ [] ∧ "/users/".toList <:+ before ++ ['/'] then some name else none := by
  have hname : ∀ c ∈ name, decide (c ≠ '/') = true := fun c hc =>
    decide_eq_true fun heq => h (heq ▸ hc)
  have htake : (before ++ '/' :: name).rtakeWhile (· ≠ '/') = name := by
    rw [List.rtakeWhile,List.reverse_append,List.reverse_cons,List.append_assoc,
      List.takeWhile_append_of_pos fun c hc => hname c (List.mem_reverse.1 hc)]
    simp
  have hdrop : (before ++ '/' :: name).rdropWhile (· ≠ '/') = before ++ ['/'] := by
    rw [List.rdropWhile,List.reverse_append,List.reverse_cons,List.append_assoc,
      List.dropWhile_append_of_pos fun c hc => hname c (List.mem_reverse.1 hc)]
    simp
  rw [usersMatch,htake,hdrop]

end resources

section promise

variable (S : Site) (K : Picker) (d : Db)

def Carried (username : Text) : Prop :=
  S.toLowerCase username = S.toLowerCase instanceActorUsername ∨
    (∃ a ∈ d.actors, named S username a = true) ∨
    ∃ c ∈ d.communities, federated c = true ∧ c.preferredUsername = username

structure Named : Prop where
  actor : ∀ a ∈ d.actors, a.deleted = false → ∃ profile,
    webfinger S K d (acct S a.preferredUsername) = respond S a.preferredUsername a.apId profile
  community : ∀ c ∈ d.communities, federated c = true → ∃ profile,
    webfinger S K d (acct S c.preferredUsername) = respond S c.preferredUsername c.apId profile
  again : ∀ resource subject apId profile, webfinger S K d resource = .found subject apId profile →
    webfinger S K d subject = .found subject apId profile
  actorUrl : ∀ a ∈ d.actors, a.deleted = false →
    webfinger S K d a.apId = webfinger S K d (acct S a.preferredUsername)
  communityUrl : ∀ c ∈ d.communities, federated c = true →
    webfinger S K d c.apId = webfinger S K d (acct S c.preferredUsername)
  unknown : ∀ username, username ≠ [] → '@' ∉ username → ¬Carried S d username →
    webfinger S K d (acct S username) = .notFound

/-- No community is federated, and the names of the live actors are plain and apart up to case. -/
structure Clear : Prop where
  alone : ∀ c ∈ d.communities, federated c = false
  plain : ∀ a ∈ d.actors, a.deleted = false → '@' ∉ a.preferredUsername ∧ '/' ∉ a.preferredUsername
  folded : ∀ a ∈ d.actors, a.deleted = false →
    Sqlite.lower a.preferredUsername = S.toLowerCase a.preferredUsername
  unreserved : ∀ a ∈ d.actors, a.deleted = false →
    S.toLowerCase a.preferredUsername ≠ S.toLowerCase instanceActorUsername
  apart : ∀ a ∈ d.actors, ∀ b ∈ d.actors, a.deleted = false → b.deleted = false →
    Sqlite.lower a.preferredUsername = Sqlite.lower b.preferredUsername → a = b

end promise

section lookups

variable {S : Site} {K : Picker} {d : Db} {username : Text} {a : Actor}

theorem actor_unique (h : Sane S d) {b : Actor} (ha : a ∈ d.actors) (hb : b ∈ d.actors)
    (hid : a.apId = b.apId) : a = b := List.inj_on_of_nodup_map h.ids ha hb hid

theorem acct_inj {x y : Text} (h : acct S x = acct S y) : x = y := by
  rw [acct_eq,acct_eq] at h
  exact List.append_cancel_right (List.append_cancel_left h)

theorem actorApId_ne_instance (username : Text) : actorApId S username ≠ instanceApId S := by
  intro h
  rw [actorApId,instanceApId,List.append_assoc] at h
  have hrest := List.append_cancel_left h
  cases hrest

theorem picked (h : K.pick (d.actors.filter (named S username)) = some a) :
    a ∈ d.actors ∧ a.deleted = false ∧
      Sqlite.lower a.preferredUsername = S.toLowerCase username := by
  obtain ⟨hmem,hnamed⟩ := List.mem_filter.1 (K.mem _ _ h)
  rw [named,Bool.and_eq_true,decide_eq_true_eq,Bool.not_eq_true'] at hnamed
  exact ⟨hmem,hnamed.2,hnamed.1⟩

theorem lookup_found {subject apId profile : Text}
    (h : lookup S K d username = .found subject apId profile) :
    (S.toLowerCase username = S.toLowerCase instanceActorUsername ∧
        subject = acct S instanceActorUsername ∧ apId = instanceApId S) ∨
      (∃ a, K.pick (d.actors.filter (named S username)) = some a ∧
        S.toLowerCase username ≠ S.toLowerCase instanceActorUsername ∧
        subject = acct S a.preferredUsername ∧ apId = a.apId) ∨
      ∃ c ∈ d.communities, federated c = true ∧ subject = acct S c.preferredUsername ∧
        apId = c.apId := by
  unfold lookup at h
  split at h
  next hinstance =>
    cases h
    exact .inl ⟨hinstance,rfl,rfl⟩
  next hno =>
    split at h
    next actor hpick =>
      cases h
      exact .inr (.inl ⟨actor,hpick,hno,rfl,rfl⟩)
    · split at h
      next community hfind =>
        cases h
        have hfound := List.find?_some hfind
        rw [Bool.and_eq_true] at hfound
        exact .inr (.inr ⟨community,List.mem_of_find?_eq_some hfind,hfound.2,rfl,rfl⟩)
      · cases h

theorem communityApId_ne_actorApId (username : Text) :
    communityApId S username ≠ actorApId S username := by
  intro h
  rw [communityApId,actorApId] at h
  have hlast := congrArg (fun l => l.reverse.take 3) (List.append_cancel_right h)
  simp at hlast

theorem lookup_actor (h : Sane S d) (ha : a ∈ d.actors) (hlive : a.deleted = false)
    {profile : Text}
    (hfound : lookup S K d username = respond S a.preferredUsername a.apId profile) :
    Sqlite.lower a.preferredUsername = S.toLowerCase username ∧
      S.toLowerCase username ≠ S.toLowerCase instanceActorUsername ∧
      K.pick (d.actors.filter (named S username)) = some a := by
  have hid := (h.minted a ha hlive).1
  rcases lookup_found hfound with ⟨_,_,hinstance⟩ | ⟨b,hpick,hno,_,hsame⟩ | ⟨c,hc,_,hname,hsame⟩
  · rw [hid] at hinstance
    exact absurd hinstance (actorApId_ne_instance _)
  · obtain ⟨hb,_,hlower⟩ := picked hpick
    obtain rfl := actor_unique h ha hb hsame
    exact ⟨hlower,hno,hpick⟩
  · rw [hid,(h.groups c hc).1,acct_inj hname] at hsame
    exact absurd hsame.symm (communityApId_ne_actorApId _)

theorem lookup_instance (h : S.toLowerCase username = S.toLowerCase instanceActorUsername) :
    lookup S K d username =
      respond S instanceActorUsername (instanceApId S) (S.baseUrl ++ "/groups".toList) := by
  rw [lookup,if_pos h]

theorem lookup_pick (hno : S.toLowerCase username ≠ S.toLowerCase instanceActorUsername)
    (hpick : K.pick (d.actors.filter (named S username)) = some a) :
    lookup S K d username = respond S a.preferredUsername a.apId
      (S.baseUrl ++ "/users/".toList ++ a.preferredUsername) := by
  rw [lookup,if_neg hno,hpick]

theorem communityApId_inj {x y : Text} (h : communityApId S x = communityApId S y) : x = y :=
  List.append_cancel_left h

theorem pick_nil (K : Picker) : K.pick [] = none := by
  cases hpick : K.pick [] with
  | none => rfl
  | some a => exact absurd (K.mem _ _ hpick) List.not_mem_nil

theorem lookup_unknown (h : Sane S d) (hno : ¬Carried S d username) :
    lookup S K d username = .notFound := by
  rw [Carried,not_or,not_or] at hno
  obtain ⟨hinstance,hactor,hcommunity⟩ := hno
  have hnone : d.actors.filter (named S username) = [] :=
    List.filter_eq_nil_iff.2 fun a ha hnamed => hactor ⟨a,ha,hnamed⟩
  have hfind : loadFederatedCommunity d (communityApId S username) = none := by
    refine List.find?_eq_none.2 fun c hc hfound => ?_
    rw [Bool.and_eq_true,decide_eq_true_eq,(h.groups c hc).1] at hfound
    exact hcommunity ⟨c,hc,hfound.2,communityApId_inj hfound.1⟩
  rw [lookup,if_neg hinstance,hnone,pick_nil]
  dsimp only
  rw [hfind]

theorem actor_url (S : Site) (username : Text) :
    actorApId S username = S.baseUrl ++ '/' :: ("ap/users/".toList ++ username) := by
  rw [actorApId,List.append_assoc]
  rfl

theorem webfinger_actor_url (hne : username ≠ []) (hslash : '/' ∉ username) :
    webfinger S K d (actorApId S username) = lookup S K d username := by
  have hmatch : usersMatch (actorApId S username) = some username := by
    have hsplit : actorApId S username = (S.baseUrl ++ "/ap/users".toList) ++ '/' :: username := by
      rw [actorApId,List.append_assoc,List.append_assoc]
      rfl
    rw [hsplit,usersMatch_append hslash,if_pos]
    refine ⟨hne,S.baseUrl ++ "/ap".toList,?_⟩
    rw [List.append_assoc,List.append_assoc]
    rfl
  rw [webfinger,actor_url,parse_url,← actor_url,hmatch]
  simp only [Option.map_some,hne,S.named.1,false_or,if_false,ne_eq,not_true]

theorem usersMatch_some {resource name : Text} (h : usersMatch resource = some name) :
    '/' ∉ name := by
  obtain ⟨_,h⟩ := Option.ite_none_right_eq_some.1 h
  obtain rfl := Option.some.inj h
  intro hmem
  have hslash := List.mem_rtakeWhile_imp hmem
  simp at hslash

theorem isWordChar_ne {c : Char} (h : isWordChar c = true) : c ≠ '/' ∧ c ≠ '@' := by
  constructor
  · rintro rfl
    exact absurd h (by decide)
  · rintro rfl
    exact absurd h (by decide)

theorem head_base (S : Site) : ∃ tail, S.baseUrl.rdropWhile (· = '/') = 'h' :: tail := by
  obtain ⟨rest,hrest⟩ := S.http
  have hprefix := List.rdropWhile_prefix (p := fun c => decide (c = '/')) (l := S.baseUrl)
  cases hbase : S.baseUrl.rdropWhile (· = '/') with
  | nil =>
    have hall := List.rdropWhile_eq_nil_iff.1 hbase 'h' (by rw [← hrest]; exact List.mem_cons_self)
    simp at hall
  | cons c tail =>
    rw [hbase,← hrest] at hprefix
    obtain ⟨more,hmore⟩ := hprefix
    obtain ⟨rfl,_⟩ := List.cons_eq_cons.1 hmore
    exact ⟨tail,rfl⟩

/-- The id of a community names no user. -/
theorem webfinger_community_url {c : Community} (h : Sane S d) (hc : c ∈ d.communities) :
    webfinger S K d c.apId = .invalid := by
  obtain ⟨hid,_,hword⟩ := h.groups c hc
  have hslash : '/' ∉ c.preferredUsername := fun hmem =>
    (isWordChar_ne (List.all_eq_true.1 hword _ hmem)).1 rfl
  have hmatch : usersMatch c.apId = none := by
    have hsplit : c.apId = (S.baseUrl.rdropWhile (· = '/') ++ "/ap/groups".toList) ++
        '/' :: c.preferredUsername := by
      rw [hid,communityApId,List.append_assoc,List.append_assoc]
      rfl
    rw [hsplit,usersMatch_append hslash,if_neg]
    rintro ⟨_,husers⟩
    have hgroups : "groups/".toList <:+
        S.baseUrl.rdropWhile (· = '/') ++ "/ap/groups".toList ++ ['/'] := by
      refine ⟨S.baseUrl.rdropWhile (· = '/') ++ "/ap/".toList,?_⟩
      rw [List.append_assoc,List.append_assoc]
      rfl
    have hsame := (List.suffix_of_suffix_length_le husers hgroups (by decide)).eq_of_length
      (by decide)
    exact absurd hsame (by decide)
  have hno : ¬"acct:".toList <+: c.apId := by
    obtain ⟨tail,htail⟩ := head_base S
    rw [hid,communityApId,htail]
    rintro ⟨more,hmore⟩
    cases hmore
  have hparse : parseResource S c.apId = none := by
    rw [parseResource,if_neg hno,hmatch]
    split
    · cases S.hostOf c.apId <;> rfl
    · rfl
  rw [webfinger,hparse]

end lookups

section results

variable {S : Site} {K : Picker} {d : Db} {username : Text}

theorem lower_mem {c : Char} (hc : c = '@' ∨ c = '/') {t : Text} (h : c ∈ t) :
    c ∈ Sqlite.lower t := by
  refine List.mem_map.2 ⟨c,h,?_⟩
  rcases hc with rfl | rfl
  · decide
  · decide

theorem pick_some {rows : List Actor} {a : Actor} (h : a ∈ rows) : ∃ b, K.pick rows = some b :=
  Option.ne_none_iff_exists'.1 (K.some_of_ne rows (List.ne_nil_of_mem h))

theorem Clear.pick (h : Clear S d) {a : Actor} (ha : a ∈ d.actors) (hlive : a.deleted = false) :
    K.pick (d.actors.filter (named S a.preferredUsername)) = some a := by
  have hnamed : named S a.preferredUsername a = true := by
    rw [named,Bool.and_eq_true,decide_eq_true_eq,hlive]
    exact ⟨h.folded a ha hlive,rfl⟩
  obtain ⟨b,hb⟩ := @pick_some K _ a (List.mem_filter.2 ⟨ha,hnamed⟩)
  obtain ⟨hmem,hliveb,hlower⟩ := picked hb
  rw [hb,h.apart b hmem a ha hliveb hlive (hlower.trans (h.folded a ha hlive).symm)]

theorem Clear.lookup (h : Clear S d) {a : Actor} (ha : a ∈ d.actors) (hlive : a.deleted = false) :
    Webfinger.lookup S K d a.preferredUsername =
      respond S a.preferredUsername a.apId (S.baseUrl ++ "/users/".toList ++ a.preferredUsername) :=
  lookup_pick (h.unreserved a ha hlive) (h.pick ha hlive)

theorem found_lookup {resource subject apId profile : Text}
    (h : webfinger S K d resource = .found subject apId profile) :
    ∃ username, Webfinger.lookup S K d username = .found subject apId profile := by
  unfold webfinger at h
  split at h
  · cases h
  next username domain _ =>
    split at h
    · cases h
    · split at h
      · cases h
      · exact ⟨username,h⟩

theorem Clear.again (h : Clear S d) (hs : Sane S d) {resource subject apId profile : Text}
    (hfound : webfinger S K d resource = .found subject apId profile) :
    webfinger S K d subject = .found subject apId profile := by
  obtain ⟨username,hlookup⟩ := found_lookup hfound
  rcases lookup_found hlookup with
    ⟨hinstance,hsubject,_⟩ | ⟨a,hpick,hno,hsubject,_⟩ | ⟨c,hc,hf,_⟩
  · rw [lookup_instance hinstance] at hlookup
    rw [hsubject,webfinger_acct S K d (by decide) (by decide),lookup_instance rfl,hlookup,hsubject]
  · obtain ⟨ha,hlive,_⟩ := picked hpick
    rw [lookup_pick hno hpick] at hlookup
    rw [hsubject,webfinger_acct S K d (h.plain a ha hlive).1 (hs.minted a ha hlive).2,
      h.lookup ha hlive,hlookup,hsubject]
  · rw [h.alone c hc] at hf
    cases hf

/-- Where the names are clear, every identity is named by its own handle. -/
theorem Clear.named (h : Clear S d) (hs : Sane S d) : Named S K d where
  actor a ha hlive := by
    refine ⟨S.baseUrl ++ "/users/".toList ++ a.preferredUsername,?_⟩
    rw [webfinger_acct S K d (h.plain a ha hlive).1 (hs.minted a ha hlive).2,h.lookup ha hlive]
  community c hc hf := by
    rw [h.alone c hc] at hf
    cases hf
  again _ _ _ _ := h.again hs
  actorUrl a ha hlive := by
    obtain ⟨hid,hne⟩ := hs.minted a ha hlive
    obtain ⟨hat,hslash⟩ := h.plain a ha hlive
    rw [hid,webfinger_actor_url hne hslash,webfinger_acct S K d hat hne]
  communityUrl c hc hf := by
    rw [h.alone c hc] at hf
    cases hf
  unknown username hne hat hno := by
    rw [webfinger_acct S K d hat hne,lookup_unknown hs hno]

theorem Named.plain (h : Named S K d) (hs : Sane S d) {a : Actor} (ha : a ∈ d.actors)
    (hlive : a.deleted = false) : '@' ∉ a.preferredUsername ∧ '/' ∉ a.preferredUsername := by
  obtain ⟨profile,hfound⟩ := h.actor a ha hlive
  have huncut : ∀ c username, (c = '@' ∨ c = '/') → c ∈ a.preferredUsername → c ∉ username →
      Webfinger.lookup S K d username ≠ respond S a.preferredUsername a.apId profile := by
    intro c username hc hmem hno hlookup
    have hin := lower_mem hc hmem
    rw [(lookup_actor hs ha hlive hlookup).1] at hin
    exact S.kept username c hc hno hin
  constructor
  · intro hat
    obtain ⟨name,hname,hcut⟩ := webfinger_cut S K d hat
    rw [hfound] at hcut
    rcases hcut with hcut | hcut | hcut
    · exact huncut '@' name (.inl rfl) hat hname hcut.symm
    · cases hcut
    · cases hcut
  · intro hslash
    have hurl := (h.actorUrl a ha hlive).trans hfound
    rw [(hs.minted a ha hlive).1,webfinger,actor_url,parse_url,← actor_url] at hurl
    cases hmatch : usersMatch (actorApId S a.preferredUsername) with
    | none =>
      rw [hmatch] at hurl
      cases hurl
    | some name =>
      rw [hmatch] at hurl
      simp only [Option.map_some,ne_eq,not_true,if_false] at hurl
      rw [← (hs.minted a ha hlive).1] at hurl
      split at hurl
      · cases hurl
      · exact huncut '/' name (.inr rfl) hslash (usersMatch_some hmatch) hurl

theorem Named.clear (h : Named S K d) (hs : Sane S d) : Clear S d := by
  have hplain : ∀ a ∈ d.actors, a.deleted = false →
      '@' ∉ a.preferredUsername ∧ '/' ∉ a.preferredUsername := fun a ha hlive => h.plain hs ha hlive
  have hpicked : ∀ a ∈ d.actors, a.deleted = false →
      Sqlite.lower a.preferredUsername = S.toLowerCase a.preferredUsername ∧
        S.toLowerCase a.preferredUsername ≠ S.toLowerCase instanceActorUsername ∧
        K.pick (d.actors.filter (Webfinger.named S a.preferredUsername)) = some a := by
    intro a ha hlive
    obtain ⟨profile,hfound⟩ := h.actor a ha hlive
    rw [webfinger_acct S K d (hplain a ha hlive).1 (hs.minted a ha hlive).2] at hfound
    exact lookup_actor hs ha hlive hfound
  refine ⟨fun c hc => ?_,hplain,fun a ha hlive => (hpicked a ha hlive).1,
    fun a ha hlive => (hpicked a ha hlive).2.1,fun a ha b hb hlive hliveb hlower => ?_⟩
  · cases hf : federated c with
    | false => rfl
    | true =>
      obtain ⟨profile,hfound⟩ := h.community c hc hf
      rw [← h.communityUrl c hc hf,webfinger_community_url hs hc] at hfound
      cases hfound
  · obtain ⟨hfolda,_,hpicka⟩ := hpicked a ha hlive
    obtain ⟨hfoldb,_,hpickb⟩ := hpicked b hb hliveb
    have hsame : Webfinger.named S a.preferredUsername = Webfinger.named S b.preferredUsername := by
      funext x
      rw [Webfinger.named,Webfinger.named,← hfolda,← hfoldb,hlower]
    rw [hsame,hpickb] at hpicka
    exact (Option.some.inj hpicka).symm

theorem load_community (hs : Sane S d) {c : Community} (hc : c ∈ d.communities)
    (hf : federated c = true) :
    loadFederatedCommunity d (communityApId S c.preferredUsername) = some c := by
  have hid := (hs.groups c hc).1
  cases hfind : loadFederatedCommunity d (communityApId S c.preferredUsername) with
  | none =>
    have hno := List.find?_eq_none.1 hfind c hc
    rw [hf,Bool.and_true,decide_eq_true_eq] at hno
    exact absurd hid hno
  | some c' =>
    have hfound := List.find?_some hfind
    rw [Bool.and_eq_true,decide_eq_true_eq,← hid] at hfound
    rw [List.inj_on_of_nodup_map hs.groupIds (List.mem_of_find?_eq_some hfind) hc hfound.1]

theorem communityApId_ne_instance : communityApId S instanceActorUsername ≠ instanceApId S := by
  intro h
  have hcommunity : instanceActorUsername <:+ instanceApId S := h ▸ List.suffix_append _ _
  have hactor : "/ap/actor".toList <:+ instanceApId S := List.suffix_append _ _
  have hsame := (List.suffix_of_suffix_length_le hcommunity hactor (by decide)).eq_of_length
    (by decide)
  exact absurd hsame (by decide)

/-- A federated community is named by its handle where neither an actor nor the instance has the
name, up to case. -/
theorem community_named_iff (hs : Sane S d) {c : Community} (hc : c ∈ d.communities)
    (hf : federated c = true) :
    (∃ profile, webfinger S K d (acct S c.preferredUsername) =
        respond S c.preferredUsername c.apId profile) ↔
      S.toLowerCase c.preferredUsername ≠ S.toLowerCase instanceActorUsername ∧
        ∀ a ∈ d.actors, Webfinger.named S c.preferredUsername a = false := by
  obtain ⟨hid,hne,hword⟩ := hs.groups c hc
  have hat : '@' ∉ c.preferredUsername := fun hmem =>
    (isWordChar_ne (List.all_eq_true.1 hword _ hmem)).2 rfl
  rw [webfinger_acct S K d hat hne]
  constructor
  · rintro ⟨profile,hfound⟩
    have hinstance : S.toLowerCase c.preferredUsername ≠ S.toLowerCase instanceActorUsername := by
      intro hinstance
      rw [lookup_instance hinstance] at hfound
      obtain ⟨hsubject,happ,_⟩ := Answer.found.inj hfound
      rw [hid,← acct_inj hsubject] at happ
      exact communityApId_ne_instance happ.symm
    refine ⟨hinstance,fun a ha => ?_⟩
    cases hnamed : Webfinger.named S c.preferredUsername a with
    | false => rfl
    | true =>
      obtain ⟨b,hpick⟩ := @pick_some K _ a (List.mem_filter.2 ⟨ha,hnamed⟩)
      obtain ⟨hb,hlive,_⟩ := picked hpick
      rw [lookup_pick hinstance hpick] at hfound
      obtain ⟨hsubject,happ,_⟩ := Answer.found.inj hfound
      rw [(hs.minted b hb hlive).1,acct_inj hsubject,hid] at happ
      exact absurd happ.symm (communityApId_ne_actorApId _)
  · rintro ⟨hinstance,hnone⟩
    have hfilter : d.actors.filter (Webfinger.named S c.preferredUsername) = [] :=
      List.filter_eq_nil_iff.2 fun a ha hnamed => by
        rw [hnone a ha] at hnamed
        cases hnamed
    refine ⟨S.baseUrl ++ "/groups/".toList ++ c.preferredUsername,?_⟩
    rw [Webfinger.lookup,if_neg hinstance,hfilter,pick_nil]
    dsimp only
    rw [load_community hs hc hf]

/-- In every state that is reached: the identities are named by their own handles just where no
community is federated and the names of the live actors are plain and apart; and a community by its
handle where nothing hides it. -/
theorem identities_named_iff (S : Site) (K : Picker) {d : Db} (hrun : (machine S).Reaches {} d) :
    (Named S K d ↔ Clear S d) ∧ ∀ c ∈ d.communities, federated c = true →
      ((∃ profile, webfinger S K d (acct S c.preferredUsername) =
          respond S c.preferredUsername c.apId profile) ↔
        S.toLowerCase c.preferredUsername ≠ S.toLowerCase instanceActorUsername ∧
          ∀ a ∈ d.actors, Webfinger.named S c.preferredUsername a = false) := by
  have hs : Sane S d := hrun.invariant sane_start fun _ _ _ ha hstep _ => ha.step hstep
  exact ⟨⟨fun h => h.clear hs,fun h => h.named hs⟩,fun c hc hf => community_named_iff hs hc hf⟩

end results

section concrete

theorem toLower_cut {b c : Char} (hc : c = '@' ∨ c = '/') (h : b.toLower = c) : b = c := by
  by_cases hupper : b.isUpper = true
  · have hlower : c.isLower = true := by
      rw [← h,Char.isLower_toLower_eq_isAlpha,Char.isAlpha,hupper,Bool.true_or]
    rcases hc with rfl | rfl
    · exact absurd hlower (by decide)
    · exact absurd hlower (by decide)
  · rwa [Char.toLower_eq_of_not_isUpper hupper] at h

/-- The site of an origin, whose parser takes what stands behind the scheme. -/
def plainSite : Site where
  baseUrl := "https://x".toList
  domain := "x".toList
  hostOf url :=
    if "https://x/".toList <+: url then some "x".toList else none
  toLowerCase := Sqlite.lower
  http := by decide
  hosted path := by
    have hprefix : "https://x/".toList <+: "https://x".toList ++ '/' :: path :=
      ⟨path,by simp⟩
    rw [if_pos hprefix]
  named := by decide
  kept t c hc h hmem := by
    obtain ⟨b,hb,hbc⟩ := List.mem_map.1 hmem
    exact h (toLower_cut hc hbc ▸ hb)

def firstRow : Picker where
  pick := List.head?
  mem rows a h := List.mem_of_head? h
  some_of_ne rows h := by
    cases rows with
    | nil => exact absurd rfl h
    | cons a rows => exact Option.some_ne_none a

def twoCases : List Op := [.account "al".toList,.account "Al".toList]

def twoCasesDb : Db := ((machine plainSite).run twoCases {}).getD {}

/-- Two accounts and two communities, one of which has the name of an account. -/
def namesakes : List Op :=
  [.account "al".toList,.account "bo".toList,.createCommunity "chess".toList,
    .createCommunity "al".toList]

def namesakesDb : Db := ((machine plainSite).run namesakes {}).getD {}

def row (username : Text) : Actor := ⟨actorApId plainSite username,username,false⟩

def group (name : Text) : Community := ⟨communityApId plainSite name,name,false,true⟩

theorem runs_concrete : (machine plainSite).run twoCases {} = some twoCasesDb ∧
    (machine plainSite).run namesakes {} = some namesakesDb ∧
    twoCasesDb.actors = [row "al".toList,row "Al".toList] := by
  decide +kernel

/-- The community that no account hides is named by its handle, and the other is not. -/
theorem identities_named_iff_al :
    (∃ profile, webfinger plainSite firstRow namesakesDb (acct plainSite "chess".toList) =
      respond plainSite "chess".toList (group "chess".toList).apId profile) ∧
    (¬∃ profile, webfinger plainSite firstRow namesakesDb (acct plainSite "al".toList) =
      respond plainSite "al".toList (group "al".toList).apId profile) ∧
    ¬Named plainSite firstRow namesakesDb := by
  obtain ⟨hall,hcommunity⟩ :=
    identities_named_iff plainSite firstRow (.of_run runs_concrete.2.1)
  have hchess := hcommunity (group "chess".toList) (by decide +kernel) rfl
  have hal := hcommunity (group "al".toList) (by decide +kernel) rfl
  refine ⟨hchess.mpr (by decide +kernel),fun hfound => ?_,fun hnamed => ?_⟩
  · exact absurd (hal.mp hfound) (by decide +kernel)
  · exact absurd ((hall.mp hnamed).alone (group "chess".toList) (by decide +kernel)) (by decide)

/-- Of two names that differ in case one is answered with the other's id. -/
theorem case_shadows : ¬∀ (S : Site) (K : Picker) (d : Db), (machine S).Reaches {} d →
    Named S K d := by
  intro h
  obtain ⟨hrun,-,hactors⟩ := runs_concrete
  have hreached : (machine plainSite).Reaches {} twoCasesDb := .of_run hrun
  have hs : Sane plainSite twoCasesDb :=
    hreached.invariant sane_start fun _ _ _ ha hstep _ => ha.step hstep
  have hclear := (h plainSite firstRow twoCasesDb hreached).clear hs
  have hal : row "al".toList ∈ twoCasesDb.actors := by
    rw [hactors]
    exact List.mem_cons_self
  have hAl : row "Al".toList ∈ twoCasesDb.actors := by
    rw [hactors]
    exact List.mem_cons_of_mem _ List.mem_cons_self
  have hlower : Sqlite.lower "al".toList = Sqlite.lower "Al".toList := by decide
  have hsame := hclear.apart _ hal _ hAl rfl rfl hlower
  exact absurd (congrArg Actor.preferredUsername hsame) (by decide)

end concrete

end Yurucommu.Webfinger
