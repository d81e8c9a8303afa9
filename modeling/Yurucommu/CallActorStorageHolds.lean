import Yurucommu.CallActorStorageReads
import Yurucommu.JsonRecord

/-!
A record that is put is read back, alone and in the list of keys; but one under the empty key is
not in the list.
-/

set_option autoImplicit false

namespace Yurucommu.CallActorStorage

open JsonText (Json NumberFormat Proper Units parse stringify reread)
open Utf16 (Paired)
open Whatwg (Text)

section keys

theorem entries_set {α : Type} {values : JsMap Text α} {key : Text} (value : α)
    (h : key ∉ values.entries.map Prod.fst) :
    (values.set key value).entries = values.entries ++ [(key,value)] := by
  obtain ⟨entries,hnodup⟩ := values
  simp only [JsMap.set] at h ⊢
  clear hnodup
  induction entries with
  | nil => rfl
  | cons e entries ih =>
    rw [List.map_cons,List.mem_cons,not_or] at h
    rw [JsMap.setEntries,if_neg (Ne.symm h.1),ih h.2,List.cons_append]

theorem values_eq {α : Type} {values values' : JsMap Text α}
    (h : values.entries = values'.entries) : values = values' := by
  obtain ⟨entries,hnodup⟩ := values
  obtain ⟨entries',hnodup'⟩ := values'
  cases h
  rfl

variable {ν : Type} [Zero ν] {F : NumberFormat ν} {rows : List Row}
  {records : Text → Option (Value ν)} {keyPrefix : Text}

def keysOf (rows : List Row) (keyPrefix : Text) : List Text :=
  (rows.filter fun row => row.part = 0 && keyPrefix.isPrefixOf row.key).map Row.key

theorem selectKeys_eq (after : Text) :
    selectKeys rows keyPrefix after = Keyset.page 100 (some after) (keysOf rows keyPrefix) := rfl

theorem mem_keysOf (h : Holds F rows records) {key : Text} :
    key ∈ keysOf rows keyPrefix ↔ keyPrefix.isPrefixOf key = true ∧ records key ≠ none := by
  simp only [keysOf,List.mem_map,List.mem_filter,Bool.and_eq_true,decide_eq_true_eq]
  constructor
  · rintro ⟨row,⟨hrow,-,hprefixed⟩,rfl⟩
    rw [h.mem_iff] at hrow
    refine ⟨hprefixed,fun hnone => ?_⟩
    rw [record_eq_nil.2 hnone] at hrow
    cases hrow
  · rintro ⟨hprefixed,hsome⟩
    obtain ⟨row,rest,hrecord⟩ := List.exists_cons_of_ne_nil (mt (record_eq_nil (F := F)).1 hsome)
    have hfirst : (record F records key)[0]? = some row := by rw [hrecord]; rfl
    obtain ⟨rfl,hpart⟩ := getElem_record hfirst
    refine ⟨row,⟨?_,hpart,hprefixed⟩,rfl⟩
    rw [h.mem_iff]
    exact List.mem_of_getElem? hfirst

theorem nodup_keysOf (h : Holds F rows records) : (keysOf rows keyPrefix).Nodup := by
  refine List.Nodup.map_on ?_ (h.nodup.filter _)
  intro row hrow other hother hkey
  simp only [List.mem_filter,Bool.and_eq_true,decide_eq_true_eq,h.mem_iff] at hrow hother
  obtain ⟨hrow,hpart,-⟩ := hrow
  obtain ⟨hother,hpart',-⟩ := hother
  rw [← hkey] at hother
  obtain ⟨i,hi⟩ := List.getElem?_of_mem hrow
  obtain ⟨j,hj⟩ := List.getElem?_of_mem hother
  rw [← (getElem_record hi).2,hpart] at hi
  rw [← (getElem_record hj).2,hpart',hi] at hj
  exact Option.some.inj hj

def entry (records : Text → Option (Value ν)) (key : Text) : Text × Json ν :=
  (key,(reading records key).getD .null)

theorem readKeys_eq (h : Holds F rows records) {pages : Nat} (hpages : rows.length < pages)
    {keys : List Text} (values : JsMap Text (Json ν)) (after : Text)
    (hsome : ∀ key ∈ keys, records key ≠ none) (hsorted : keys.Pairwise (· < ·))
    (hfresh : ∀ key ∈ keys, key ∉ values.entries.map Prod.fst) :
    ∃ values', readKeys F pages rows keys values after =
        some (.ok (values',keys.getLastD after)) ∧
      values'.entries = values.entries ++ keys.map (entry records) := by
  induction keys generalizing values after with
  | nil => exact ⟨values,rfl,by simp⟩
  | cons key keys ih =>
    obtain ⟨value,hvalue⟩ := Option.ne_none_iff_exists'.1 (hsome key List.mem_cons_self)
    have hread : reading records key = some (reread value.json) := by rw [reading,hvalue]; rfl
    have hset := entries_set (reread value.json) (hfresh key List.mem_cons_self)
    rw [List.pairwise_cons] at hsorted
    obtain ⟨values',hloop,hentries⟩ := ih (values.set key (reread value.json))
      key (fun k hk => hsome k (List.mem_cons_of_mem _ hk)) hsorted.2 (by
        intro k hk hmem
        rw [hset,List.map_append,List.mem_append] at hmem
        rcases hmem with hmem | hmem
        · exact hfresh k (List.mem_cons_of_mem _ hk) hmem
        · rw [List.map_singleton,List.mem_singleton] at hmem
          exact (hsorted.1 k hk).ne' hmem)
    refine ⟨values',?_,?_⟩
    · rw [readKeys,get_eq h hpages,hread]
      simp only [hloop]
      rw [List.getLastD_cons]
    · rw [hentries,hset,List.append_assoc,List.map_cons,entry,hread]
      rfl

theorem le_getLast {keys : List Text} (h : keys.Pairwise (· < ·)) {last : Text}
    (hlast : keys.getLast? = some last) : ∀ key ∈ keys, key ≤ last := by
  obtain ⟨init,rfl⟩ := List.getLast?_eq_some_iff.1 hlast
  intro key hkey
  rcases List.mem_append.1 hkey with hkey | hkey
  · exact le_of_lt ((List.pairwise_append.1 h).2.2 key hkey last (by simp))
  · exact le_of_eq (List.mem_singleton.1 hkey)

theorem listLoop_eq (h : Holds F rows records) {pages : Nat} (hpages : rows.length < pages)
    {more : Nat} (values : JsMap Text (Json ν)) (after : Text)
    (hbehind : ∀ key ∈ values.entries.map Prod.fst, key ≤ after)
    (hmore : (Keyset.left (some after) (keysOf rows keyPrefix)).length < more) :
    ∃ values', listLoop F pages rows keyPrefix more values after = some (.ok values') ∧
      values'.entries = values.entries ++
        (Keyset.left (some after) (keysOf rows keyPrefix)).map (entry records) := by
  induction more generalizing values after with
  | zero => omega
  | succ more ih =>
    have hnodup : (keysOf rows keyPrefix).Nodup := nodup_keysOf h
    have hleft := Keyset.sorted_left hnodup (some after)
    have hpage : (Keyset.page 100 (some after) (keysOf rows keyPrefix)).Pairwise (· < ·) :=
      hleft.sublist (List.take_sublist _ _)
    have hmem : ∀ key ∈ Keyset.page 100 (some after) (keysOf rows keyPrefix),
        records key ≠ none ∧ after < key := by
      intro key hkey
      refine ⟨((mem_keysOf h).1 (Keyset.mem_of_mem_page hkey)).2,?_⟩
      have hahead := (Keyset.perm_left _ _).mem_iff.1 (List.mem_of_mem_take hkey)
      exact of_decide_eq_true (List.mem_filter.1 hahead).2 after rfl
    obtain ⟨values',hread,hentries⟩ := readKeys_eq h hpages values after
      (fun key hkey => (hmem key hkey).1) hpage
      (fun key hkey hin => (hbehind key hin).not_gt (hmem key hkey).2)
    rw [listLoop,selectKeys_eq,hread]
    dsimp only
    split
    next hshort =>
      rw [Keyset.left_of_short hshort]
      exact ⟨values',rfl,hentries⟩
    next hfull =>
      obtain ⟨last,hlast,hsplit⟩ := Keyset.left_of_full hnodup (by decide) hfull
      have hafter :
          (Keyset.page 100 (some after) (keysOf rows keyPrefix)).getLastD after = last := by
        rw [List.getLastD_eq_getLast?,hlast,Option.getD_some]
      rw [hafter]
      have hlt : after < last := (hmem last (List.mem_of_getLast? hlast)).2
      have hlen := congrArg List.length hsplit
      rw [List.length_append] at hlen
      obtain ⟨values'',hloop,hall⟩ := ih values' last (by
          intro key hkey
          rw [hentries,List.map_append,List.mem_append] at hkey
          rcases hkey with hkey | hkey
          · exact (hbehind key hkey).trans hlt.le
          · refine le_getLast hpage hlast key ?_
            simpa [entry,Function.comp_def] using hkey) (by omega)
      refine ⟨values'',hloop,?_⟩
      rw [hall,hentries,hsplit,List.map_append,List.append_assoc]

theorem list_eq (h : Holds F rows records) :
    ∃ values, (∀ pages, rows.length < pages → list F pages rows keyPrefix = some (.ok values)) ∧
      (values.entries.map Prod.fst).Pairwise (· < ·) ∧
      ∀ key value, (key,value) ∈ values.entries ↔
        keyPrefix.isPrefixOf key = true ∧ key ≠ [] ∧ reading records key = some value := by
  have hlen : (Keyset.left (some []) (keysOf rows keyPrefix)).length ≤ rows.length := by
    rw [(Keyset.perm_left _ _).length_eq]
    refine (List.length_filter_le _ _).trans ?_
    rw [keysOf,List.length_map]
    exact List.length_filter_le _ _
  have hread : ∀ pages, rows.length < pages → ∃ values,
      list F pages rows keyPrefix = some (.ok values) ∧ values.entries =
        (Keyset.left (some []) (keysOf rows keyPrefix)).map (entry records) := fun pages hpages =>
    listLoop_eq h hpages JsMap.empty [] (fun key hkey => absurd hkey List.not_mem_nil)
      (hlen.trans_lt hpages)
  obtain ⟨values,_,hentries⟩ := hread (rows.length + 1) (Nat.lt_succ_self _)
  have hfst : ((Keyset.left (some []) (keysOf rows keyPrefix)).map (entry records)).map Prod.fst =
      Keyset.left (some []) (keysOf rows keyPrefix) := by
    simp [entry,Function.comp_def]
  have hmem : ∀ key, key ∈ Keyset.left (some []) (keysOf rows keyPrefix) ↔
      keyPrefix.isPrefixOf key = true ∧ key ≠ [] ∧ records key ≠ none := by
    intro key
    have hahead : Keyset.Ahead (some []) key ↔ key ≠ [] := by
      cases key <;> simp [Keyset.Ahead]
    rw [(Keyset.perm_left _ _).mem_iff,List.mem_filter,mem_keysOf h,decide_eq_true_eq,hahead]
    tauto
  refine ⟨values,fun pages hpages => ?_,?_,fun key value => ?_⟩
  · obtain ⟨values',hlist,hentries'⟩ := hread pages hpages
    rw [hlist,values_eq (hentries'.trans hentries.symm)]
  · rw [hentries,hfst]
    exact Keyset.sorted_left (nodup_keysOf h) _
  · rw [hentries,List.mem_map]
    constructor
    · rintro ⟨k,hk,heq⟩
      obtain ⟨hprefixed,hne,hsome⟩ := (hmem k).1 hk
      obtain ⟨rfl,rfl⟩ := Prod.mk.inj heq
      obtain ⟨stored,hstored⟩ := Option.ne_none_iff_exists'.1 hsome
      refine ⟨hprefixed,hne,?_⟩
      rw [reading,hstored]
      rfl
    · rintro ⟨hprefixed,hne,hread⟩
      refine ⟨key,(hmem key).2 ⟨hprefixed,hne,fun hnone => ?_⟩,?_⟩
      · rw [reading,hnone] at hread
        cases hread
      · rw [entry,hread]
        rfl

end keys

section writes

variable {ν : Type} [Zero ν] {F : NumberFormat ν} {rows : List Row}
  {records : Text → Option (Value ν)}

theorem holds_nil : Holds F [] fun _ => none where
  nodup := List.nodup_nil
  mem_iff row := by simp [record]

theorem record_update_of_ne {key other : Text} (h : other ≠ key) (value : Option (Value ν)) :
    record F (Function.update records key value) other = record F records other := by
  rw [record,record,Function.update_of_ne h]

theorem Holds.filter (h : Holds F rows records) (key : Text) :
    Holds F (rows.filter fun row => row.key ≠ key) (Function.update records key none) where
  nodup := h.nodup.filter _
  mem_iff row := by
    rw [List.mem_filter,decide_eq_true_eq,h.mem_iff]
    by_cases hkey : row.key = key
    · have hnone : record F (Function.update records key none) row.key = [] :=
        record_eq_nil.2 (by rw [hkey,Function.update_self])
      rw [hnone]
      simp [hkey]
    · rw [record_update_of_ne hkey]
      simp [hkey]

theorem foldlM_inserts (news : List Row) (rows : List Row)
    (hfresh : ∀ row ∈ news, ∀ other ∈ rows, ¬ (other.key = row.key ∧ other.part = row.part))
    (hdistinct : news.Pairwise fun row other => ¬ (row.key = other.key ∧ row.part = other.part)) :
    (news.map Statement.insert).foldlM Statement.run rows = some (rows ++ news) := by
  induction news generalizing rows with
  | nil => simp
  | cons row news ih =>
    rw [List.pairwise_cons] at hdistinct
    have hany : (rows.any fun other => other.key = row.key && other.part = row.part) = false := by
      rw [List.any_eq_false]
      intro other hother
      simpa using hfresh row List.mem_cons_self other hother
    rw [List.map_cons,List.foldlM_cons,Statement.run,hany,if_neg Bool.false_ne_true,
      Option.bind_eq_bind,Option.bind_some,ih (rows ++ [row]) ?_ hdistinct.2,List.append_assoc,
      List.singleton_append]
    intro other hother old hold
    rcases List.mem_append.1 hold with hold | hold
    · exact hfresh other (List.mem_cons_of_mem _ hother) old hold
    · rw [List.mem_singleton.1 hold]
      exact hdistinct.1 other hother

theorem pairwise_rowsOf (key : Text) (encoded : Units) :
    (rowsOf key encoded).Pairwise fun row other => row.part < other.part := by
  rw [List.pairwise_iff_getElem]
  intro i j hi hj hij
  rw [(getElem_rowsOf (List.getElem?_eq_getElem hi)).2,
    (getElem_rowsOf (List.getElem?_eq_getElem hj)).2]
  exact hij

theorem key_of_mem_rowsOf {key : Text} {encoded : Units} {row : Row}
    (h : row ∈ rowsOf key encoded) : row.key = key := by
  obtain ⟨i,hi⟩ := List.getElem?_of_mem h
  exact (getElem_rowsOf hi).1

theorem put_eq (commits : Bool) (key : Text) (value : Json ν) (rows : List Row) :
    put F commits key value rows =
      if 99 < (chunks (stringify F value)).length then .error .capacity
      else if commits = true then
        .ok ((rows.filter fun row => row.key ≠ key) ++ rowsOf key (stringify F value))
      else .error .storage := by
  have hstatements : statements key (stringify F value) =
      .delete key :: (rowsOf key (stringify F value)).map Statement.insert := by
    rw [statements,rowsOf]
    congr 1
    refine List.ext_getElem? fun i => ?_
    rw [List.getElem?_map,List.getElem?_mapIdx,List.getElem?_mapIdx,Option.map_map]
    rfl
  have hrun : (statements key (stringify F value)).foldlM Statement.run rows =
      some ((rows.filter fun row => row.key ≠ key) ++ rowsOf key (stringify F value)) := by
    rw [hstatements,List.foldlM_cons,Statement.run,Option.bind_eq_bind,Option.bind_some]
    refine foldlM_inserts _ _ (fun row hrow other hother hsame => ?_) ?_
    · rw [List.mem_filter,decide_eq_true_eq] at hother
      exact hother.2 (hsame.1.trans (key_of_mem_rowsOf hrow))
    · exact (pairwise_rowsOf _ _).imp fun hlt hsame => hlt.ne hsame.2
  have hlen : (statements key (stringify F value)).length =
      (chunks (stringify F value)).length + 1 := by
    rw [statements,List.length_cons,List.length_mapIdx]
  have htransaction : transaction commits (statements key (stringify F value)) rows =
      if commits = true then
        .ok ((rows.filter fun row => row.key ≠ key) ++ rowsOf key (stringify F value))
      else .error .storage := by
    unfold transaction
    rw [hrun]
    cases commits <;> rfl
  rw [put,hlen,htransaction]
  by_cases hcapacity : 99 < (chunks (stringify F value)).length
  · rw [if_pos hcapacity,if_pos (by omega)]
  · rw [if_neg hcapacity,if_neg (by omega)]

theorem Holds.put (h : Holds F rows records) (key : Text) (value : Value ν) :
    Holds F ((rows.filter fun row => row.key ≠ key) ++ rowsOf key (stringify F value.json))
      (Function.update records key (some value)) where
  nodup := by
    have hnew : (rowsOf key (stringify F value.json)).Nodup :=
      (pairwise_rowsOf _ _).imp fun hlt heq => by
        rw [heq] at hlt
        exact Nat.lt_irrefl _ hlt
    refine List.nodup_append.2 ⟨h.nodup.filter _,hnew,fun row hrow other hother heq => ?_⟩
    rw [List.mem_filter,decide_eq_true_eq,heq] at hrow
    exact hrow.2 (key_of_mem_rowsOf hother)
  mem_iff row := by
    rw [List.mem_append,List.mem_filter,decide_eq_true_eq,h.mem_iff]
    by_cases hkey : row.key = key
    · have hnew : record F (Function.update records key (some value)) row.key =
          rowsOf key (stringify F value.json) := by
        rw [hkey,record,Function.update_self]
        rfl
      rw [hnew]
      simp [hkey]
    · have hno : row ∉ rowsOf key (stringify F value.json) := fun hrow =>
        hkey (key_of_mem_rowsOf hrow)
      rw [record_update_of_ne hkey]
      simp [hkey,hno]

theorem holds_after (h : Holds F rows records) (call : Call ν) :
    ∃ records, Holds F (Call.after F rows call) records := by
  cases call with
  | delete key => exact ⟨_,h.filter key⟩
  | put commits key value =>
    rw [Call.after,put_eq]
    split_ifs
    · exact ⟨records,h⟩
    · exact ⟨_,h.put key value⟩
    · exact ⟨records,h⟩

/-- The rows after calls are those of records. -/
theorem holds_run (calls : List (Call ν)) : ∃ records, Holds F (run F calls) records := by
  have hfold : ∀ rows records, Holds F rows records →
      ∃ records, Holds F (calls.foldl (Call.after F) rows) records := by
    induction calls with
    | nil => exact fun rows records h => ⟨records,h⟩
    | cons call calls ih =>
      intro rows records h
      obtain ⟨records',h'⟩ := holds_after h call
      exact ih _ records' h'
  exact hfold [] _ holds_nil

end writes

section results

variable {ν : Type} [Zero ν]

theorem records_none_iff {F : NumberFormat ν} {rows : List Row}
    {records : Text → Option (Value ν)} (h : Holds F rows records) (key : Text) :
    records key = none ↔ ∀ row ∈ rows, row.key ≠ key := by
  constructor
  · rintro hnone row hrow rfl
    rw [h.mem_iff,record_eq_nil.2 hnone] at hrow
    cases hrow
  · intro hall
    by_contra hsome
    have hkeys : key ∈ keysOf rows key :=
      (mem_keysOf h).2 ⟨List.isPrefixOf_iff_prefix.2 List.prefix_rfl,hsome⟩
    obtain ⟨row,hrow,hkey⟩ := List.mem_map.1 hkeys
    exact hall row (List.mem_of_mem_filter hrow) hkey

def Gets (F : NumberFormat ν) (rows : List Row) (key : Text) (answer : Option (Json ν)) : Prop :=
  ∃ n, ∀ pages, n ≤ pages → get F pages rows key = some (.ok answer)

def Lists (F : NumberFormat ν) (rows : List Row) (keyPrefix : Text)
    (values : JsMap Text (Json ν)) : Prop :=
  ∃ n, ∀ pages, n ≤ pages → list F pages rows keyPrefix = some (.ok values)

/-- Every key with the prefix, with its value, in the order of the keys. -/
structure AllListed (F : NumberFormat ν) (rows : List Row) (keyPrefix : Text)
    (values : JsMap Text (Json ν)) : Prop where
  sorted : (values.entries.map Prod.fst).Pairwise (· < ·)
  mem_iff : ∀ key value, (key,value) ∈ values.entries ↔
    keyPrefix.isPrefixOf key = true ∧ Gets F rows key (some value)

/-- The chunks of a record: none is empty or long or cuts a pair, and the rows are these. -/
structure Chunked (encoded : Units) (rows : List Row) (key : Text) : Prop where
  chunk : ∀ chunk ∈ chunks encoded, chunk ≠ [] ∧ (Utf16.utf8 chunk).length ≤ 65535 ∧ Paired chunk
  row : ∀ row ∈ rows, row.key = key → ∃ chunk ∈ chunks encoded, row.value = Utf16.decode chunk
  whole : (chunks encoded).flatten = encoded

/-- A put that does not throw is read back, alone and in the list. -/
structure ReadBack (F : NumberFormat ν) (rows rows' : List Row) (key : Text) (value : Json ν)
    (keyPrefix : Text) : Prop where
  get : Gets F rows' key (parse F (stringify F value))
  others : ∀ other, other ≠ key → ∀ answer, Gets F rows' other answer ↔ Gets F rows other answer
  list : ∃ values, Lists F rows' keyPrefix values ∧ AllListed F rows' keyPrefix values
  chunked : Chunked (stringify F value) rows' key

def RoundTrips (F : NumberFormat ν) (commits : Bool) (key : Text) (value : Value ν)
    (keyPrefix : Text) (rows : List Row) : Prop :=
  match put F commits key value.json rows with
  | .error _ => Call.after F rows (.put commits key value) = rows
  | .ok rows' => ReadBack F rows rows' key value.json keyPrefix

variable {F : NumberFormat ν} {rows : List Row} {records : Text → Option (Value ν)}

theorem gets_iff (h : Holds F rows records) {key : Text} {answer : Option (Json ν)} :
    Gets F rows key answer ↔ answer = reading records key := by
  constructor
  · rintro ⟨n,hn⟩
    have hget := hn (max n (rows.length + 1)) (le_max_left _ _)
    rw [get_eq h (lt_of_lt_of_le (Nat.lt_succ_self _) (le_max_right _ _))] at hget
    exact (Except.ok.inj (Option.some.inj hget)).symm
  · rintro rfl
    exact ⟨rows.length + 1,fun pages hpages => get_eq h hpages⟩

theorem listed_iff (h : Holds F rows records) (keyPrefix : Text) :
    (∃ values, Lists F rows keyPrefix values ∧ AllListed F rows keyPrefix values) ↔
      keyPrefix ≠ [] ∨ records [] = none := by
  constructor
  · rintro ⟨values,⟨n,hn⟩,hall⟩
    by_contra hno
    obtain ⟨rfl,hsome⟩ : keyPrefix = [] ∧ records [] ≠ none := by
      simpa only [not_or,ne_eq,not_not] using hno
    obtain ⟨stored,hstored⟩ := Option.ne_none_iff_exists'.1 hsome
    have hread : reading records [] = some (reread stored.json) := by rw [reading,hstored]; rfl
    have hin := (hall.mem_iff [] (reread stored.json)).2 ⟨rfl,(gets_iff h).2 hread.symm⟩
    obtain ⟨values',hread',_,hmem⟩ := @list_eq _ _ F rows records [] h
    have hlist := hread' (max n (rows.length + 1))
      (lt_of_lt_of_le (Nat.lt_succ_self _) (le_max_right _ _))
    rw [hn _ (le_max_left _ _)] at hlist
    obtain rfl := Except.ok.inj (Option.some.inj hlist)
    exact ((hmem [] _).1 hin).2.1 rfl
  · intro hor
    obtain ⟨values,hlist,hsorted,hmem⟩ := @list_eq _ _ F rows records keyPrefix h
    have hne : ∀ key, keyPrefix.isPrefixOf key = true → reading records key ≠ none → key ≠ [] := by
      rintro key hprefixed hread rfl
      rcases hor with hp | hnone
      · exact hp (List.prefix_nil.1 (List.isPrefixOf_iff_prefix.1 hprefixed))
      · rw [reading,hnone] at hread
        exact hread rfl
    refine ⟨values,⟨rows.length + 1,hlist⟩,hsorted,fun key value => ?_⟩
    rw [hmem,gets_iff h]
    constructor
    · rintro ⟨hprefixed,_,hread⟩
      exact ⟨hprefixed,hread.symm⟩
    · rintro ⟨hprefixed,hread⟩
      refine ⟨hprefixed,hne key hprefixed ?_,hread.symm⟩
      rw [← hread]
      exact Option.some_ne_none _

theorem round_trips_of_holds (h : Holds F rows records) (commits : Bool) (key : Text)
    (value : Value ν) (keyPrefix : Text) :
    RoundTrips F commits key value keyPrefix rows ↔
      99 < (chunks (stringify F value.json)).length ∨ commits = false ∨ keyPrefix ≠ [] ∨
        key ≠ [] ∧ ∀ row ∈ rows, row.key ≠ [] := by
  rw [RoundTrips,put_eq]
  by_cases hcapacity : 99 < (chunks (stringify F value.json)).length
  · rw [if_pos hcapacity]
    simp only [Call.after,put_eq,hcapacity,if_true,true_or]
  · rw [if_neg hcapacity]
    cases commits with
    | false =>
      simp only [Call.after,put_eq,if_neg hcapacity,Bool.false_eq_true,if_false,true_or,or_true]
    | true =>
      have hput := h.put key value
      have hlisted := listed_iff hput keyPrefix
      have hpaired := @JsonText.paired_stringify _ _ F _ value.proper
      have hempty : Function.update records key (some value) [] = none ↔
          key ≠ [] ∧ ∀ row ∈ rows, row.key ≠ [] := by
        rw [← records_none_iff h]
        by_cases hkey : key = []
        · simp [hkey]
        · rw [Function.update_of_ne (Ne.symm hkey)]
          simp [hkey]
      rw [hempty] at hlisted
      simp only [if_true,hcapacity,false_or,Bool.true_eq_false]
      rw [← hlisted]
      refine ⟨fun hback => hback.list,fun hlist => ⟨?_,fun other hother answer => ?_,hlist,?_⟩⟩
      · rw [gets_iff hput,reading,Function.update_self,JsonText.parse_stringify value.proper]
        rfl
      · rw [gets_iff hput,gets_iff h,reading,reading,Function.update_of_ne hother]
      · refine ⟨fun chunk hchunk => ?_,fun row hrow hkey => ?_,flatten_chunks _⟩
        · obtain ⟨hne,_,hcut⟩ := mem_chunks hpaired hchunk
          exact ⟨hne,utf8_chunk hpaired hchunk,hcut⟩
        · rcases List.mem_append.1 hrow with hrow | hrow
          · rw [List.mem_filter,decide_eq_true_eq] at hrow
            exact absurd hkey hrow.2
          · obtain ⟨i,hi,rfl⟩ := List.mem_mapIdx.1 hrow
            exact ⟨_,List.getElem_mem hi,rfl⟩

/-- After any calls a put is read back and listed, but for a record under the empty key. -/
theorem put_round_trips_iff (F : NumberFormat ν) (calls : List (Call ν)) (commits : Bool)
    (key : Text) (value : Value ν) (keyPrefix : Text) :
    RoundTrips F commits key value keyPrefix (run F calls) ↔
      99 < (chunks (stringify F value.json)).length ∨ commits = false ∨ keyPrefix ≠ [] ∨
        key ≠ [] ∧ ∀ row ∈ run F calls, row.key ≠ [] := by
  obtain ⟨records,h⟩ := @holds_run _ _ F calls
  exact round_trips_of_holds h commits key value keyPrefix

theorem length_chunks_le (encoded : Units) : (chunks encoded).length ≤ encoded.length := by
  induction encoded using chunks.induct with
  | case1 => simp [chunks]
  | case2 rest h ih =>
    have hpos := chunkLength_pos h
    have hlen := List.length_pos_iff.2 h
    rw [List.length_drop] at ih
    rw [chunks,dif_neg h,List.length_cons]
    omega

def nullValue : Value ℤ := ⟨.null,.null⟩

/-- A record under the empty key is not in the list that no prefix narrows. -/
theorem put_empty_key_unlisted :
    ¬∀ (F : NumberFormat ℤ) (calls : List (Call ℤ)) (commits : Bool) (key : Text) (value : Value ℤ)
      (keyPrefix : Text), RoundTrips F commits key value keyPrefix (run F calls) := by
  intro hall
  have hback : RoundTrips JsonText.integerFormat true [] nullValue [] [] :=
    hall JsonText.integerFormat [] true [] nullValue []
  have hshort : (chunks (stringify JsonText.integerFormat nullValue.json)).length ≤ 4 :=
    (length_chunks_le _).trans (Nat.le_of_eq rfl)
  rcases (round_trips_of_holds holds_nil true [] nullValue []).1 hback with h | h | h | h
  · omega
  · cases h
  · exact h rfl
  · exact h.1 rfl

end results

end Yurucommu.CallActorStorage
