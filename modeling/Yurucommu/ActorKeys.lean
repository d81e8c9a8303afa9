import Yurucommu.ActorIdentityAgree

/-!
Canonical actor ids as keys of receipts and heads. They are canonicalized again on the way to the
tables, which takes them to another key where the id ends with more than one slash, or where its
query is a slash.
-/

set_option autoImplicit false

namespace Yurucommu.ActorIdentity

open Whatwg (Text URL lower isSlash joined CleanSegment specialQuerySet StartsPath)

section sites

variable (P : Platform)

/-- None where the key is refused. -/
def actorKey (actor : Text) : Option Text := normalizeActivityPubActorId P actor

/-- The rows of `inbound_object_deletions`: an actor and an object. -/
abbrev Receipts := List (Text × Text)

def inboundObjectNotDeleted (receipts : Receipts) (objectId actor : Text) : Bool :=
  !receipts.any fun r => r = ((normalizeActivityPubActorId P actor).getD actor,objectId)

def hasTerminalNoteDeletion (receipts : Receipts) (actor objectId : Text) : Option Bool :=
  (actorKey P actor).map fun key => receipts.any fun r => r = (key,objectId)

/-- `rows` is what the selects of the window give for an actor and an object. -/
def loadInboundNoteUpdateWindow {α : Type} (rows : Text → Text → α) (actor objectId : Text) :
    Option α := (actorKey P actor).map fun key => rows key objectId

/-- The four places take an id and its key for the same actor. -/
structure SameActor (x k : Text) : Prop where
  notDeleted : ∀ receipts objectId,
    inboundObjectNotDeleted P receipts objectId x = inboundObjectNotDeleted P receipts objectId k
  deleted : ∀ receipts objectId,
    hasTerminalNoteDeletion P receipts x objectId = hasTerminalNoteDeletion P receipts k objectId
  window : ∀ (α : Type) (rows : Text → Text → α) (objectId : Text),
    loadInboundNoteUpdateWindow P rows x objectId = loadInboundNoteUpdateWindow P rows k objectId
  author : ∀ attributedTo,
    isSameActivityPubActor P attributedTo x = isSameActivityPubActor P attributedTo k

/-- The key of an id is its own key, and stands for the id everywhere. -/
def KeyStable (x : Text) : Prop :=
  ∃ k, normalizeActivityPubActorId P x = some k ∧ normalizeActivityPubActorId P k = some k ∧
    isSameActivityPubActor P x k = true ∧ SameActor P x k

/-- What the host parser answers with is a host: it is not empty, is read as itself, has no
character that ends a host, and has colons in brackets only. -/
structure Hosts : Prop where
  nonempty : ∀ t h, t ≠ [] → P.parseHost t = some h → h ≠ []
  again : ∀ t h, P.parseHost t = some h → P.parseHost h = some h
  chars : ∀ t h, P.parseHost t = some h →
    ∀ c ∈ h, 0x20 < c.toNat ∧ isSlash c = false ∧ c ≠ '#' ∧ c ≠ '?' ∧ c ≠ '@'
  brackets : ∀ t h, P.parseHost t = some h → (∀ c ∈ h, c ≠ ':' ∧ c ≠ '[') ∨
    ∃ b, h = '[' :: b ++ [']'] ∧ ∀ c ∈ b, c ≠ '[' ∧ c ≠ ']'

end sites

section hosts

variable {P : Platform} {x hostname : Text} {url : URL} {port : Option Nat}

theorem hostState_plain {t : Text} (h : ∀ c ∈ t, c ≠ ':' ∧ c ≠ '[') (port : Option Nat) :
    Whatwg.hostState false (t ++ portText port) = (t,(portText port).drop 1) := by
  induction t with
  | nil => cases port <;> simp [portText,Whatwg.hostState]
  | cons c t ih =>
    have hc := h c List.mem_cons_self
    have hrest := ih fun d hd => h d (List.mem_cons_of_mem _ hd)
    rw [List.cons_append,Whatwg.hostState]
    simp only [hc.1,hc.2,decide_false,Bool.false_and,Bool.false_eq_true,if_false,ite_self,hrest]

theorem hostState_bracketed {b : Text} (h : ∀ c ∈ b, c ≠ '[' ∧ c ≠ ']') (port : Option Nat) :
    Whatwg.hostState true (b ++ ']' :: portText port) =
      (b ++ [']'],(portText port).drop 1) := by
  induction b with
  | nil =>
    have hplain := @hostState_plain [] (by simp) port
    rw [List.nil_append] at hplain
    rw [List.nil_append,Whatwg.hostState]
    simp [hplain]
  | cons c b ih =>
    have hc := h c List.mem_cons_self
    have hrest := ih fun d hd => h d (List.mem_cons_of_mem _ hd)
    rw [List.cons_append,Whatwg.hostState]
    simp [hc.1,hc.2,hrest]

theorem Hosts.hostState (hp : Hosts P) {t : Text} (h : P.parseHost t = some hostname)
    (port : Option Nat) :
    Whatwg.hostState false (hostname ++ portText port) = (hostname,(portText port).drop 1) := by
  rcases hp.brackets t hostname h with hplain | ⟨b,rfl,hb⟩
  · exact hostState_plain hplain port
  · rw [List.append_assoc,List.cons_append,Whatwg.hostState]
    simp [hostState_bracketed hb port]

theorem portState_portText {scheme : Text}
    (h : ∀ n, port = some n → n ≤ 65535 ∧ n ≠ Whatwg.defaultPort scheme) :
    Whatwg.portState scheme ((portText port).drop 1) = some port := by
  cases hport : port with
  | none => simp [portText,Whatwg.portState]
  | some n =>
    obtain ⟨hn,hdefault⟩ := h n hport
    have hall : (Nat.toDigits 10 n).all Char.isDigit = true :=
      List.all_eq_true.mpr (isDigit_toDigits n)
    simp only [portText,List.drop_succ_cons,List.drop_zero,Whatwg.portState,hall,if_true,
      Nat.toDigits_ne_nil,if_false,Nat.ofDigitChars_ten_toDigits]
    rw [if_neg (by omega),if_neg hdefault]

theorem parse_hostname (h : Whatwg.parse P.parseHost x = some url) :
    ∃ t, t ≠ [] ∧ P.parseHost t = some url.hostname := by
  unfold Whatwg.parse at h
  simp only at h
  split at h
  · cases h
  · split at h
    · unfold Whatwg.parseAuthority at h
      simp only at h
      split at h
      · cases h
      · rename_i hne
        obtain ⟨hostname,hh,h⟩ := Option.bind_eq_some_iff.mp h
        obtain ⟨port,_,rfl⟩ := Option.map_eq_some_iff.mp h
        exact ⟨_,hne,hh⟩
    · cases h

theorem joined_plain {path : List Text} (hc : ∀ t ∈ path, CleanSegment t) :
    ∀ c ∈ joined path, 0x20 < c.toNat ∧ c ≠ '#' ∧ c ≠ '?' := by
  intro c hmem
  rcases joined_chars hc c hmem with rfl | hset
  · decide
  · have hquery := querySet_of_pathSet hset
    refine ⟨(querySet_chars hquery).1,(querySet_chars hquery).2,?_⟩
    rintro rfl
    exact absurd hset (by decide)

theorem startsPath_joined {path : List Text} (tail : Text) (h : path ≠ [] ∨ StartsPath tail) :
    StartsPath (joined path ++ tail) := by
  cases path with
  | nil => exact h.resolve_left fun hne => hne rfl
  | cons segment path => exact .inr ⟨_,.inl rfl⟩

theorem parse_rewritten (hp : Hosts P) (h : Whatwg.parse P.parseHost x = some url)
    {path : List Text} {query : Option Text} (hpath : ∀ t ∈ path, CleanSegment t)
    (hquery : ∀ q, query = some q → ∀ c ∈ q, specialQuerySet c = false) :
    Whatwg.parse P.parseHost (url.scheme ++ "://".toList ++ (url.hostname ++ portText url.port) ++
        (joined path ++ queryText query)) =
      some { scheme := url.scheme, username := [], password := [], hostname := url.hostname
             port := url.port, path := Whatwg.pathStart (joined path), query := query } := by
  have hv := Whatwg.parse_valid h
  obtain ⟨t,ht,hhost⟩ := parse_hostname h
  have hlower : lower url.scheme = url.scheme := by
    rcases hv.scheme with hs | hs
    · rw [hs]
      decide
    · rw [hs]
      decide
  have hscheme : lower url.scheme = "http".toList ∨ lower url.scheme = "https".toList :=
    hlower.symm ▸ hv.scheme
  have hport : ∀ c ∈ portText url.port,
      0x20 < c.toNat ∧ isSlash c = false ∧ c ≠ '#' ∧ c ≠ '?' ∧ c ≠ '@' := by
    intro c hc
    rcases Spelling.portText_chars url.port c hc with rfl | hdigit
    · decide
    · obtain ⟨h1,h2,_,h3,h4,h5,_⟩ := authorityChar_cases (.inl (isDigit_cases hdigit).1)
      exact ⟨h1,h2,h4,h3,h5⟩
  have hauthority : ∀ c ∈ url.hostname ++ portText url.port,
      0x20 < c.toNat ∧ isSlash c = false ∧ c ≠ '#' ∧ c ≠ '?' ∧ c ≠ '@' := by
    intro c hc
    rcases List.mem_append.mp hc with hc | hc
    · exact hp.chars _ _ hhost c hc
    · exact hport c hc
  have hne : url.hostname ++ portText url.port ≠ [] := by
    simp [hp.nonempty _ _ ht hhost]
  have hrest : ∀ c ∈ joined path ++ queryText query, 0x20 < c.toNat ∧ c ≠ '#' := by
    intro c hc
    rcases List.mem_append.mp hc with hc | hc
    · exact ⟨(joined_plain hpath c hc).1,(joined_plain hpath c hc).2.1⟩
    · cases hq : query with
      | none =>
        rw [hq] at hc
        cases hc
      | some q =>
        rw [hq] at hc
        rcases List.mem_cons.mp hc with rfl | hc
        · decide
        · exact querySet_chars (querySet_of_specialQuerySet (hquery q hq c hc))
  have hstarts : StartsPath (joined path ++ queryText query) := by
    refine startsPath_joined _ (.inr ?_)
    cases query with
    | none => exact .inl rfl
    | some q => exact .inr ⟨q,.inr rfl⟩
  have hall : ∀ c ∈ joined path, decide (c ≠ '?') = true := fun c hc =>
    decide_eq_true (joined_plain hpath c hc).2.2
  have htake : (joined path ++ queryText query).takeWhile (· ≠ '?') = joined path := by
    rw [List.takeWhile_append_of_pos hall]
    cases query <;> simp [queryText]
  have hstate : Whatwg.queryState (joined path ++ queryText query) = query := by
    rw [Whatwg.queryState,List.dropWhile_append_of_pos hall]
    cases hq : query with
    | none => simp [queryText]
    | some q => simp [queryText,Whatwg.encode_of_clean (hquery q hq)]
  have hwritten := @Whatwg.parse_written P.parseHost url.scheme
    (url.hostname ++ portText url.port) (joined path ++ queryText query) [] hscheme hne
    (fun c hc => ⟨(hauthority c hc).1,(hauthority c hc).2.1,(hauthority c hc).2.2.1⟩) hrest
    (.inl rfl)
  rw [List.append_nil] at hwritten
  rw [hwritten,Whatwg.parseAuthority_written _
    (fun c hc => ⟨(hauthority c hc).2.1,(hauthority c hc).2.2.2.1,(hauthority c hc).2.2.2.2⟩)
    hstarts,hp.hostState hhost,if_neg (hp.nonempty _ _ ht hhost)]
  simp only [hp.again _ _ hhost,hlower,portState_portText hv.port,htake,hstate,Option.bind_some,
    Option.map_some]

theorem normalize_rewritten (hp : Hosts P) (h : Whatwg.parse P.parseHost x = some url)
    {path : List Text} {query : Option Text} (hpath : ∀ t ∈ path, CleanSegment t)
    (hquery : ∀ q, query = some q → ∀ c ∈ q, specialQuerySet c = false) :
    normalizeActivityPubActorId P (url.scheme ++ "://".toList ++
        (url.hostname ++ portText url.port) ++ (joined path ++ queryText query)) =
      some (url.scheme ++ "://".toList ++ (url.hostname ++ portText url.port) ++
        dropSlash (joined (Whatwg.pathStart (joined path)) ++
          if query = some [] then [] else queryText query)) := by
  rw [normalize_url (parse_rewritten hp h hpath hquery)]
  congr 3
  cases query with
  | none => rfl
  | some q =>
    cases q with
    | nil => rfl
    | cons c q => rfl

end hosts

section rest

variable {path : List Text} {q : Text}

theorem dropSlash_eq_iff (t : Text) : dropSlash t = t ↔ t.getLast? ≠ some '/' := by
  constructor
  · exact fun h hlast => dropSlash_ne hlast h
  · exact fun h => if_neg h

theorem dropSlash_dropSlash_iff (t : Text) :
    dropSlash (dropSlash t) = dropSlash t ↔ ¬['/','/'] <:+ t := by
  rw [dropSlash_eq_iff]
  rcases dropSlash_cases t with h | h
  · have hlast : t.getLast? ≠ some '/' := (dropSlash_eq_iff t).mp h.symm
    rw [← h]
    refine iff_of_true hlast fun hsuffix => ?_
    obtain ⟨s,rfl⟩ := hsuffix
    simp at hlast
  · generalize dropSlash t = d at h ⊢
    subst h
    rw [not_iff_not]
    constructor
    · intro hlast
      obtain ⟨s,hs⟩ := List.getLast?_eq_some_iff.mp hlast
      exact ⟨s,by simp [hs]⟩
    · rintro ⟨s,hs⟩
      have hd : d = s ++ ['/'] := by
        have hsplit : (s ++ ['/']) ++ ['/'] = d ++ ['/'] := by simpa using hs
        exact (List.append_cancel_right hsplit).symm
      simp [hd]

end rest

section keys

variable {P : Platform} {x k : Text} {url : URL}

theorem search_cases (url : URL) :
    url.search = [] ∨ ∃ q, url.query = some q ∧ q ≠ [] ∧ url.search = '?' :: q := by
  unfold URL.search
  cases url.query with
  | none => exact .inl rfl
  | some q =>
    cases q with
    | nil => exact .inl rfl
    | cons c q => exact .inr ⟨c :: q,rfl,List.cons_ne_nil _ _,rfl⟩

/-- A key is its own key exactly where what stands behind the host does not end with two slashes,
and the query is no slash alone. -/
theorem normalize_key_iff (hp : Hosts P) (h : Whatwg.parse P.parseHost x = some url)
    (hk : normalizeActivityPubActorId P x = some k) :
    normalizeActivityPubActorId P k = some k ↔
      ¬['/','/'] <:+ url.pathname ++ url.search ∧ url.search ≠ ['?','/'] := by
  have hv := Whatwg.parse_valid h
  rw [normalize_url h] at hk
  obtain rfl := Option.some.inj hk
  change _ ↔ ¬['/','/'] <:+ joined url.path ++ url.search ∧ _
  rcases search_cases url with hsearch | ⟨q,hquery,hne,hsearch⟩
  · rw [hsearch,List.append_nil]
    obtain ⟨path,hpath,hjoined⟩ := exists_path hv.path (.inr rfl)
    have hagain := @normalize_rewritten P x url hp h path none hpath fun q hq => (by cases hq)
    have hdrop := dropSlash_dropSlash_iff (joined url.path)
    simp only [queryText,List.append_nil,reduceCtorEq,if_false,hjoined] at hagain
    rw [hagain,Option.some.injEq,List.append_cancel_left_eq,← hdrop]
    simp only [ne_eq,reduceCtorEq,not_false_eq_true,and_true]
    by_cases hnil : path = []
    · rw [← hjoined,hnil]
      decide
    · rw [← hjoined,Whatwg.pathStart_joined hpath hnil]
  · have hsplit : joined url.path ++ '?' :: q = (joined url.path ++ ['?']) ++ q := by simp
    have hrest : dropSlash (joined url.path ++ '?' :: q) =
        joined url.path ++ queryText (some (dropSlash q)) := by
      rw [hsplit,dropSlash_append _ hne]
      simp [queryText]
    have hclean : ∀ r, some (dropSlash q) = some r → ∀ c ∈ r, specialQuerySet c = false := by
      rintro r ⟨⟩ c hc
      exact hv.query q hquery c (mem_of_mem_dropSlash hc)
    have hagain := normalize_rewritten hp h hv.path hclean
    have hdrop := dropSlash_dropSlash_iff (joined url.path ++ '?' :: q)
    rw [hrest] at hdrop
    rw [hsearch,hrest,hagain,Option.some.injEq,List.append_cancel_left_eq,
      Whatwg.pathStart_joined hv.path hv.nonempty]
    by_cases hslash : dropSlash q = []
    · have hq : q = ['/'] := by
        rcases dropSlash_cases q with h | h
        · exact (hne (h.trans hslash)).elim
        · rw [h,hslash]
          rfl
      have hshort : (dropSlash (joined url.path)).length ≤ (joined url.path).length := by
        unfold dropSlash
        split
        · simp
        · exact le_refl _
      rw [if_pos (congrArg some hslash),List.append_nil]
      refine iff_of_false (fun heq => ?_) fun hno => hno.2 (by rw [hq])
      have hlength := congrArg List.length heq
      rw [List.length_append,queryText,List.length_cons] at hlength
      omega
    · rw [if_neg fun heq => hslash (Option.some.inj heq),hdrop]
      refine (and_iff_left ?_).symm
      rintro heq
      obtain rfl : q = ['/'] := (List.cons.inj heq).2
      exact hslash rfl

theorem normalize_ne_nil (hk : normalizeActivityPubActorId P x = some k) : k ≠ [] := by
  obtain ⟨url,h,_⟩ := Option.map_eq_some_iff.mp hk
  rw [normalize_url h] at hk
  obtain rfl := Option.some.inj hk
  simp

theorem sameActor_of_key (hx : x ≠ []) (hk : normalizeActivityPubActorId P x = some k)
    (hagain : normalizeActivityPubActorId P k = some k) :
    isSameActivityPubActor P x k = true ∧ SameActor P x k := by
  have hne := normalize_ne_nil hk
  have hboth : ∀ attributedTo y, y ≠ [] → normalizeActivityPubActorId P y = some k →
      (isSameActivityPubActor P attributedTo y = true ↔
        attributedTo ≠ [] ∧ normalizeActivityPubActorId P attributedTo = some k) := by
    intro attributedTo y hy hkey
    unfold isSameActivityPubActor
    by_cases hnil : attributedTo = []
    · simp [hnil]
    · by_cases heq : attributedTo = y
      · simp [heq,hy,hkey]
      · simp only [hnil,hy,heq,hkey,decide_false,Bool.or_self,Bool.false_eq_true,if_false,ne_eq,
          not_false_eq_true,true_and]
        cases normalizeActivityPubActorId P attributedTo with
        | none => simp
        | some m => simp
  refine ⟨(hboth x k hne hagain).mpr ⟨hx,hk⟩,⟨fun receipts objectId => ?_,
    fun receipts objectId => ?_,fun α rows objectId => ?_,fun attributedTo => ?_⟩⟩
  · unfold inboundObjectNotDeleted
    rw [hk,hagain]
    rfl
  · unfold hasTerminalNoteDeletion actorKey
    rw [hk,hagain]
  · unfold loadInboundNoteUpdateWindow actorKey
    rw [hk,hagain]
  · rw [Bool.eq_iff_iff,hboth attributedTo x hx hk,hboth attributedTo k hne hagain]

/-- For every text that is a URL: its key is stable, and stands for it wherever receipts, heads and
authors are looked up, exactly where what stands behind its host does not end with two slashes and
its query is no slash alone. -/
theorem key_stable_iff (hp : Hosts P) (h : Whatwg.parse P.parseHost x = some url) :
    KeyStable P x ↔ ¬['/','/'] <:+ url.pathname ++ url.search ∧ url.search ≠ ['?','/'] := by
  have hx : x ≠ [] := by
    rintro rfl
    cases h
  have hk := normalize_url h
  rw [← normalize_key_iff hp h hk]
  constructor
  · rintro ⟨k,hkey,hagain,_⟩
    rw [hk] at hkey
    rwa [Option.some.inj hkey]
  · intro hagain
    exact ⟨_,hk,hagain,sameActor_of_key hx hk hagain⟩

end keys

section slashes

theorem hosts_plainHosts : Hosts plainHosts := by
  have hparse : ∀ t h, plainHosts.parseHost t = some h →
      (∀ c ∈ h, isHostnameChar c = true) ∧ h = lower t := by
    intro t h hparse
    simp only [plainHosts,Option.ite_none_right_eq_some,Option.some.injEq] at hparse
    obtain ⟨hall,rfl⟩ := hparse
    refine ⟨fun c hc => ?_,rfl⟩
    obtain ⟨d,hd,rfl⟩ := List.mem_map.mp hc
    exact toLower_hostnameChar (List.all_eq_true.mp hall d hd)
  refine ⟨fun t h ht hh => ?_,fun t h hh => ?_,fun t h hh c hc => ?_,fun t h hh => .inl ?_⟩
  · rw [(hparse t h hh).2]
    simpa [lower] using ht
  · obtain ⟨hchars,heq⟩ := hparse t h hh
    have hall : h.all isHostnameChar = true := List.all_eq_true.mpr hchars
    rw [heq] at hall ⊢
    change (if _ then _ else _) = _
    rw [if_pos hall,lower_lower]
  · obtain ⟨h1,h2,_,h3,h4,h5,_⟩ := authorityChar_cases (.inl ((hparse t h hh).1 c hc))
    exact ⟨h1,h2,h4,h3,h5⟩
  · intro c hc
    have hchar := (hparse t h hh).1 c hc
    obtain ⟨_,_,_,_,_,_,h6⟩ := authorityChar_cases (.inl hchar)
    refine ⟨?_,h6⟩
    rintro rfl
    exact absurd hchar (by decide)

/-- The key of an id with two slashes at its end has another key, under which the receipt of a
`Delete` is not found. -/
theorem receipt_missed :
    normalizeActivityPubActorId plainHosts "https://b.example/users/x//".toList =
        some "https://b.example/users/x/".toList ∧
      normalizeActivityPubActorId plainHosts "https://b.example/users/x/".toList =
        some "https://b.example/users/x".toList ∧
      inboundObjectNotDeleted plainHosts
        [("https://b.example/users/x/".toList,"https://b.example/notes/1".toList)]
        "https://b.example/notes/1".toList "https://b.example/users/x//".toList = false ∧
      inboundObjectNotDeleted plainHosts
        [("https://b.example/users/x/".toList,"https://b.example/notes/1".toList)]
        "https://b.example/notes/1".toList "https://b.example/users/x/".toList = true := by
  decide +kernel

theorem key_stable_iff_plain :
    KeyStable plainHosts "https://B.example/users/x/".toList ↔
      ¬['/','/'] <:+ "/users/x/".toList ∧ ([] : Text) ≠ ['?','/'] :=
  @key_stable_iff plainHosts "https://B.example/users/x/".toList
    { scheme := "https".toList, username := [], password := [], hostname := "b.example".toList
      port := none, path := ["users".toList,"x".toList,[]], query := none }
    hosts_plainHosts (by decide +kernel)

end slashes

end Yurucommu.ActorIdentity
