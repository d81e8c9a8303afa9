import Yurucommu.CallActorStorage
import Yurucommu.JsonProper
import Yurucommu.KeysetPages
import Yurucommu.Utf16Cuts

/-!
What the pages of a table read when its rows are those of records: each record whole, and the keys
in their order.
-/

set_option autoImplicit false

namespace Yurucommu.CallActorStorage

open JsonText (Json NumberFormat Proper Units parse stringify reread)
open Utf16 (Paired)
open Whatwg (Text)

section chunks

variable {encoded : Units}

theorem chunkLength_le (rest : Units) :
    chunkLength rest ≤ 16384 ∧ chunkLength rest ≤ rest.length := by
  simp only [chunkLength]
  split <;> omega

theorem chunk_cut {rest : Units} (h : Paired rest) :
    Paired (rest.take (chunkLength rest)) ∧ Paired (rest.drop (chunkLength rest)) := by
  have hsplit : rest.take (chunkLength rest) ++ rest.drop (chunkLength rest) = rest :=
    List.take_append_drop ..
  simp only [chunkLength] at hsplit ⊢
  split at hsplit
  next hcut =>
    rw [if_pos hcut]
    rw [Bool.and_eq_true,decide_eq_true_eq] at hcut
    obtain ⟨hlt,hlead⟩ := hcut
    have hpos : min 16384 rest.length - 1 < rest.length := by omega
    rw [List.getD_eq_getElem _ _ hpos] at hlead
    rw [List.drop_eq_getElem_cons hpos] at hsplit ⊢
    rw [← hsplit] at h
    exact h.next_of_leading hlead
  next hcut =>
    rw [if_neg hcut]
    rw [← hsplit] at h
    refine h.cut fun u hu v hv hlead => ?_
    exfalso
    have hne : rest.drop (min 16384 rest.length) ≠ [] := by
      intro hnil
      rw [hnil] at hv
      cases hv
    have hlt : min 16384 rest.length < rest.length := by
      by_contra hge
      exact hne (List.drop_eq_nil_of_le (Nat.not_lt.1 hge))
    have hlast : rest.getD (min 16384 rest.length - 1) 0 = u := by
      rw [Option.mem_def,List.getLast?_eq_getElem?,List.length_take,
        List.getElem?_take_of_lt (by omega),Nat.min_eq_left (by omega)] at hu
      rw [List.getD_eq_getElem?_getD,hu,Option.getD_some]
    exact hcut (by rw [hlast,hlead]; simpa using hlt)

theorem flatten_chunks (encoded : Units) : (chunks encoded).flatten = encoded := by
  induction encoded using chunks.induct with
  | case1 => simp [chunks]
  | case2 rest h ih =>
    rw [chunks,dif_neg h,List.flatten_cons,ih,List.take_append_drop]

theorem chunks_eq_nil : chunks encoded = [] ↔ encoded = [] := by
  rw [chunks]
  split <;> simp_all

/-- The chunks of a text: none is empty or long, and none cuts a pair. -/
theorem mem_chunks {chunk : Units} (h : Paired encoded) (hmem : chunk ∈ chunks encoded) :
    chunk ≠ [] ∧ chunk.length ≤ 16384 ∧ Paired chunk := by
  induction encoded using chunks.induct with
  | case1 => simp [chunks] at hmem
  | case2 rest hne ih =>
    obtain ⟨hfirst,hrest⟩ := chunk_cut h
    rw [chunks,dif_neg hne] at hmem
    rcases List.mem_cons.1 hmem with rfl | hmem
    · obtain ⟨hle,hlen⟩ := chunkLength_le rest
      refine ⟨?_,?_,hfirst⟩
      · rw [← List.length_pos_iff,List.length_take,Nat.min_eq_left hlen]
        exact chunkLength_pos hne
      · rw [List.length_take]
        omega
    · exact ih hrest hmem

theorem utf8_chunk {chunk : Units} (h : Paired encoded) (hmem : chunk ∈ chunks encoded) :
    (Utf16.utf8 chunk).length ≤ 65535 := by
  obtain ⟨-,hlen,hpaired⟩ := mem_chunks h hmem
  have hbytes := hpaired.length_utf8
  omega

end chunks

section records

variable {ν : Type} [Zero ν] (F : NumberFormat ν)

def rowsOf (key : Text) (encoded : Units) : List Row :=
  (chunks encoded).mapIdx fun part chunk => ⟨key,part,Utf16.decode chunk⟩

def record (records : Text → Option (Value ν)) (key : Text) : List Row :=
  (records key).elim [] fun value => rowsOf key (stringify F value.json)

structure Holds (rows : List Row) (records : Text → Option (Value ν)) : Prop where
  nodup : rows.Nodup
  mem_iff : ∀ row, row ∈ rows ↔ row ∈ record F records row.key

variable {F} {rows : List Row} {records : Text → Option (Value ν)} {key : Text}

theorem getElem_rowsOf {encoded : Units} {row : Row} {i : Nat}
    (h : (rowsOf key encoded)[i]? = some row) : row.key = key ∧ row.part = i := by
  rw [rowsOf,List.getElem?_mapIdx] at h
  obtain ⟨chunk,-,rfl⟩ := Option.map_eq_some_iff.1 h
  exact ⟨rfl,rfl⟩

theorem getElem_record {row : Row} {i : Nat} (h : (record F records key)[i]? = some row) :
    row.key = key ∧ row.part = i := by
  rw [record] at h
  cases hvalue : records key with
  | none =>
    rw [hvalue] at h
    simp at h
  | some value =>
    rw [hvalue] at h
    exact getElem_rowsOf h

theorem key_of_mem_record {row : Row} (h : row ∈ record F records key) : row.key = key := by
  obtain ⟨i,hi⟩ := List.getElem?_of_mem h
  exact (getElem_record hi).1

theorem pairwise_record :
    (record F records key).Pairwise fun row other => row.part < other.part := by
  rw [List.pairwise_iff_getElem]
  intro i j hi hj hij
  rw [(getElem_record (List.getElem?_eq_getElem hi)).2,
    (getElem_record (List.getElem?_eq_getElem hj)).2]
  exact hij

theorem mem_drop_record {row : Row} {offset : Nat} :
    row ∈ (record F records key).drop offset ↔ row ∈ record F records key ∧ offset ≤ row.part := by
  constructor
  · intro h
    refine ⟨List.mem_of_mem_drop h,?_⟩
    obtain ⟨i,hi⟩ := List.getElem?_of_mem h
    rw [List.getElem?_drop] at hi
    rw [(getElem_record hi).2]
    omega
  · rintro ⟨h,hle⟩
    obtain ⟨i,hi⟩ := List.getElem?_of_mem h
    rw [(getElem_record hi).2] at hle
    refine List.mem_of_getElem? (i := i - offset) ?_
    rw [List.getElem?_drop,Nat.add_sub_cancel' hle]
    exact hi

theorem selectParts_eq (h : Holds F rows records) (offset : Nat) :
    selectParts rows key offset = ((record F records key).drop offset).take 16 := by
  have hsorted : ((record F records key).drop offset).Pairwise fun row other =>
      row.part < other.part := pairwise_record.sublist (List.drop_sublist _ _)
  have hnodup : ((record F records key).drop offset).Nodup :=
    hsorted.imp fun hlt heq => by
      rw [heq] at hlt
      exact Nat.lt_irrefl _ hlt
  have hmem : ∀ row, row ∈ (rows.filter fun row => row.key = key && offset ≤ row.part) ↔
      row ∈ (record F records key).drop offset := by
    intro row
    rw [List.mem_filter,mem_drop_record,h.mem_iff]
    simp only [Bool.and_eq_true,decide_eq_true_eq]
    constructor
    · rintro ⟨hmem,rfl,hle⟩
      exact ⟨hmem,hle⟩
    · rintro ⟨hmem,hle⟩
      obtain rfl := key_of_mem_record hmem
      exact ⟨hmem,rfl,hle⟩
  have hperm := (List.perm_ext_iff_of_nodup (h.nodup.filter _) hnodup).2 hmem
  have heq : (rows.filter fun row => row.key = key && offset ≤ row.part).insertionSort
      (fun row other => row.part ≤ other.part) = (record F records key).drop offset := by
    refine List.Perm.eq_of_pairwise ?_ (List.pairwise_insertionSort _ _)
      (hsorted.imp fun hlt => Nat.le_of_lt hlt) ((List.perm_insertionSort _ _).trans hperm)
    intro a b ha hb hab hba
    rw [(List.perm_insertionSort _ _).mem_iff,hmem] at ha
    obtain ⟨i,hi⟩ := List.getElem?_of_mem ha
    obtain ⟨j,hj⟩ := List.getElem?_of_mem hb
    rw [List.getElem?_drop] at hi hj
    have hpart := Nat.le_antisymm hab hba
    rw [(getElem_record hi).2,(getElem_record hj).2] at hpart
    rw [hpart,hj] at hi
    exact (Option.some.inj hi).symm
  rw [selectParts,heq]

end records

section reads

variable {ν : Type} [Zero ν] {F : NumberFormat ν} {rows : List Row}
  {records : Text → Option (Value ν)} {key : Text}

theorem appendRows_eq {part : List Row} {value : Units} {offset : Nat}
    (h : ∀ i row, part[i]? = some row → row.part = offset + i) :
    appendRows part value offset =
      .ok (value ++ part.flatMap Row.units,offset + part.length) := by
  induction part generalizing value offset with
  | nil => simp [appendRows]
  | cons row part ih =>
    have hrow : row.part = offset := h 0 row rfl
    rw [appendRows,if_neg (by simpa using hrow),ih]
    · simp [Nat.add_comm,Nat.add_left_comm]
    · intro i other hother
      rw [h (i + 1) other hother]
      omega

theorem getLoop_eq (h : Holds F rows records) {pages : Nat} {value : Units} {offset : Nat}
    (hle : offset ≤ (record F records key).length)
    (hpages : (record F records key).length < offset + 16 * pages) :
    getLoop rows key pages value offset =
      some (.ok (value ++ ((record F records key).drop offset).flatMap Row.units,
        (record F records key).length)) := by
  induction pages generalizing value offset with
  | zero => omega
  | succ pages ih =>
    have hparts : ∀ i row, (((record F records key).drop offset).take 16)[i]? = some row →
        row.part = offset + i := by
      intro i row hrow
      rw [List.getElem?_take] at hrow
      obtain ⟨_,hrow⟩ := Option.ite_none_right_eq_some.1 hrow
      rw [List.getElem?_drop] at hrow
      exact (getElem_record hrow).2
    rw [getLoop,selectParts_eq h]
    simp only [appendRows_eq hparts]
    split
    next hshort =>
      rw [List.length_take,List.length_drop] at hshort
      have hall : ((record F records key).drop offset).take 16 =
          (record F records key).drop offset := by
        refine List.take_of_length_le ?_
        rw [List.length_drop]
        omega
      rw [hall,List.length_drop,Nat.add_sub_cancel' hle]
    next hfull =>
      rw [List.length_take,List.length_drop] at hfull
      have hlen : (((record F records key).drop offset).take 16).length = 16 := by
        rw [List.length_take,List.length_drop]
        omega
      rw [hlen,ih (by omega) (by omega),List.append_assoc,← List.flatMap_append,
        ← List.drop_drop,List.take_append_drop]

theorem units_rowsOf {cs : List Units} (h : ∀ c ∈ cs, Paired c) (f : Nat → Nat) :
    (cs.mapIdx fun part chunk => (⟨key,f part,Utf16.decode chunk⟩ : Row)).flatMap Row.units =
      cs.flatten := by
  induction cs generalizing f with
  | nil => rfl
  | cons c cs ih =>
    rw [List.mapIdx_cons,List.flatMap_cons,List.flatten_cons,Row.units,
      Utf16.units_decode (h c List.mem_cons_self)]
    exact congrArg _ (ih (fun d hd => h d (List.mem_cons_of_mem _ hd)) fun part => f (part + 1))

theorem units_record {value : Value ν} (h : records key = some value) :
    (record F records key).flatMap Row.units = stringify F value.json := by
  have hpaired := @JsonText.paired_stringify _ _ F _ value.proper
  rw [record,h,Option.elim_some,rowsOf,
    units_rowsOf (fun c hc => (mem_chunks hpaired hc).2.2) fun part => part,flatten_chunks]

def reading (records : Text → Option (Value ν)) (key : Text) : Option (Json ν) :=
  (records key).map fun value => reread value.json

theorem record_eq_nil : record F records key = [] ↔ records key = none := by
  cases hvalue : records key with
  | none => simp [record,hvalue]
  | some value =>
    have hsome : stringify F value.json ≠ [] := by
      obtain ⟨u,t,htext,_⟩ := @JsonText.stringify_start _ _ F value.json
      rw [htext]
      exact List.cons_ne_nil _ _
    refine iff_of_false (fun hnil => hsome (chunks_eq_nil.1 ?_)) (by simp)
    rw [record,hvalue,Option.elim_some,rowsOf] at hnil
    exact List.mapIdx_eq_nil_iff.1 hnil

theorem length_record_le (h : Holds F rows records) :
    (record F records key).length ≤ rows.length := by
  have hnodup : (record F records key).Nodup := pairwise_record.imp fun hlt heq => by
    rw [heq] at hlt
    exact Nat.lt_irrefl _ hlt
  refine (List.subperm_of_subset hnodup fun row hrow => ?_).length_le
  rw [h.mem_iff,key_of_mem_record hrow]
  exact hrow

theorem get_eq (h : Holds F rows records) {pages : Nat} (hpages : rows.length < pages) :
    get F pages rows key = some (.ok (reading records key)) := by
  have hlen := @length_record_le _ _ F rows records key h
  rw [get,getLoop_eq h (Nat.zero_le _) (by omega),List.drop_zero,List.nil_append]
  cases hvalue : records key with
  | none =>
    rw [record_eq_nil.2 hvalue,reading,hvalue]
    rfl
  | some value =>
    have hne : (record F records key).length ≠ 0 := by
      intro hzero
      rw [List.length_eq_zero_iff,record_eq_nil,hvalue] at hzero
      cases hzero
    rw [units_record hvalue,reading,hvalue]
    change some (parseRecord F (stringify F value.json) (record F records key).length) = _
    rw [parseRecord,if_neg hne,JsonText.parse_stringify value.proper]
    rfl

end reads

end Yurucommu.CallActorStorage
