import Yurucommu.StripImage

/-!
What a reader of a JPEG meets: markers and segments, each after its fill bytes, and the
entropy-coded data after each start of a scan; the reader goes on after an end of image. The
stripping is held against what this reader meets in its output.
-/

set_option autoImplicit false

namespace Yurucommu.StripImage

section reader

inductive Item where
  | marker (fill : Nat) (marker : UInt8)
  | segment (fill : Nat) (marker : UInt8) (payload : Bytes)
  | scan (data : Bytes)
  | trailing (bytes : Bytes)
deriving DecidableEq

namespace Item

def isMetadata : Item → Bool
  | segment _ m _ => m = 0xe1 || m = 0xed || m = 0xfe
  | _ => false

def isStartOfScan : Item → Bool
  | segment _ m _ => m = 0xda
  | _ => false

def isPadded : Item → Bool
  | marker fill _ | segment fill _ _ => 0 < fill
  | scan _ => false
  | trailing bytes => bytes.take 2 = [0xff,0xff]

def encode : Item → Bytes
  | marker fill m => 0xff :: (List.replicate fill 0xff ++ [m])
  | segment fill m payload => 0xff :: (List.replicate fill 0xff ++ m :: payload)
  | scan data | trailing data => data

end Item

def endsScan : Bytes → Bool
  | 0xff :: rest =>
    match rest.dropWhile (· = 0xff) with
    | m :: _ => !(m = 0 || (0xd0 ≤ m && m ≤ 0xd7))
    | [] => false
  | _ => false

def scanData : Bytes → Bytes × Bytes
  | [] => ([],[])
  | x :: rest =>
    if endsScan (x :: rest) then ([],x :: rest)
    else (x :: (scanData rest).1,(scanData rest).2)

def skipFill : Bytes → Nat × Bytes
  | [] => (0,[])
  | x :: rest => if x = 0xff then ((skipFill rest).1 + 1,(skipFill rest).2) else (0,x :: rest)

def readPayload : Bytes → Option (Bytes × Bytes)
  | high :: low :: rest =>
    let len := high.toNat * 256 + low.toNat
    if len < 2 ∨ rest.length + 2 < len then none
    else some ((high :: low :: rest).take len,(high :: low :: rest).drop len)
  | _ => none

def readItem : Bytes → Option (List Item × Bytes)
  | [] => none
  | x :: rest =>
    if x ≠ 0xff then none
    else
      match skipFill rest with
      | (_,[]) => none
      | (fill,m :: tail) =>
        if isStandalone m then some ([.marker fill m],tail)
        else
          (readPayload tail).map fun read =>
            if m = 0xda then
              ([.segment fill m read.1,.scan (scanData read.2).1],(scanData read.2).2)
            else ([.segment fill m read.1],read.2)

def walkFrom : Nat → Bytes → List Item
  | _, [] => []
  | 0, bytes => [.trailing bytes]
  | n + 1, bytes =>
    match readItem bytes with
    | none => [.trailing bytes]
    | some (items,rest) => items ++ walkFrom n rest

def walk (bytes : Bytes) : List Item := walkFrom bytes.length bytes

theorem scanData_append : ∀ bytes : Bytes, (scanData bytes).1 ++ (scanData bytes).2 = bytes
  | [] => rfl
  | x :: rest => by
    simp only [scanData]
    split
    · rfl
    · simp [scanData_append rest]

theorem skipFill_append : ∀ bytes : Bytes,
    List.replicate (skipFill bytes).1 0xff ++ (skipFill bytes).2 = bytes
  | [] => rfl
  | x :: rest => by
    simp only [skipFill]
    split
    next h =>
      subst h
      rw [List.replicate_succ,List.cons_append,skipFill_append rest]
    next => rfl

theorem readPayload_append {bytes payload rest : Bytes}
    (h : readPayload bytes = some (payload,rest)) : payload ++ rest = bytes := by
  unfold readPayload at h
  split at h
  · rw [Option.ite_none_left_eq_some] at h
    obtain ⟨_,h⟩ := h
    simp only [Option.some.injEq,Prod.mk.injEq] at h
    rw [← h.1,← h.2,List.take_append_drop]
  · contradiction

theorem readItem_append {bytes rest : Bytes} {items : List Item}
    (h : readItem bytes = some (items,rest)) : items.flatMap Item.encode ++ rest = bytes := by
  cases bytes with
  | nil => simp [readItem] at h
  | cons x tail =>
    simp only [readItem] at h
    rw [Option.ite_none_left_eq_some,not_not] at h
    obtain ⟨rfl,h⟩ := h
    have hfill := skipFill_append tail
    generalize skipFill tail = skipped at h hfill
    obtain ⟨fill,after⟩ := skipped
    cases after with
    | nil => simp at h
    | cons m after =>
      by_cases halone : isStandalone m
      · simp only [halone,if_true,Option.some.injEq,Prod.mk.injEq] at h
        obtain ⟨rfl,rfl⟩ := h
        simpa [Item.encode] using hfill
      · simp only [halone,Bool.false_eq_true,if_false,Option.map_eq_some_iff] at h
        obtain ⟨⟨payload,more⟩,hread,h⟩ := h
        have hpayload := readPayload_append hread
        by_cases hscan : m = 0xda
        · simp only [hscan,if_true,Prod.mk.injEq] at h
          obtain ⟨rfl,rfl⟩ := h
          have hdata := scanData_append more
          rw [← hfill,← hpayload,hscan]
          simp [Item.encode,hdata]
        · simp only [hscan,if_false,Prod.mk.injEq] at h
          obtain ⟨rfl,rfl⟩ := h
          rw [← hfill,← hpayload]
          simp [Item.encode]

/-- Every byte is in what the reader meets. -/
theorem flatMap_encode_walkFrom : ∀ (n : Nat) (bytes : Bytes),
    (walkFrom n bytes).flatMap Item.encode = bytes
  | n, [] => by cases n <;> rfl
  | 0, x :: rest => by simp [walkFrom,Item.encode]
  | n + 1, x :: rest => by
    simp only [walkFrom]
    cases hread : readItem (x :: rest) with
    | none => simp [Item.encode]
    | some read =>
      obtain ⟨items,more⟩ := read
      rw [← readItem_append hread]
      simp [flatMap_encode_walkFrom n more]

theorem length_readItem {bytes rest : Bytes} {items : List Item}
    (h : readItem bytes = some (items,rest)) : rest.length < bytes.length := by
  have hlen := congrArg List.length (readItem_append h)
  rw [List.length_append] at hlen
  suffices 0 < (items.flatMap Item.encode).length by omega
  cases bytes with
  | nil => simp [readItem] at h
  | cons x tail =>
    simp only [readItem] at h
    rw [Option.ite_none_left_eq_some] at h
    obtain ⟨_,h⟩ := h
    split at h
    · simp at h
    · split at h
      · simp only [Option.some.injEq,Prod.mk.injEq] at h
        simp [← h.1,Item.encode]
      · obtain ⟨_,_,h⟩ := Option.map_eq_some_iff.1 h
        split at h <;> simp [← (Prod.mk.inj h).1,Item.encode]

theorem walkFrom_of_le : ∀ {n : Nat} {bytes : Bytes}, bytes.length ≤ n →
    walkFrom n bytes = walk bytes := by
  have h : ∀ (n m : Nat) (bytes : Bytes), bytes.length ≤ n → bytes.length ≤ m →
      walkFrom n bytes = walkFrom m bytes := by
    intro n
    induction n with
    | zero =>
      intro m bytes hn _
      rw [List.length_eq_zero_iff.1 (Nat.le_zero.1 hn)]
      cases m <;> rfl
    | succ n ih =>
      intro m bytes hn hm
      cases bytes with
      | nil => cases m <;> rfl
      | cons x rest =>
        cases m with
        | zero => simp at hm
        | succ m =>
          simp only [walkFrom]
          cases hread : readItem (x :: rest) with
          | none => rfl
          | some read =>
            obtain ⟨items,more⟩ := read
            have hlen := length_readItem hread
            simp only [List.append_cancel_left_eq]
            exact ih m more (by omega) (by omega)
  intro n bytes hn
  exact h n bytes.length bytes hn le_rfl

theorem walk_of_readItem {bytes rest : Bytes} {items : List Item}
    (h : readItem bytes = some (items,rest)) : walk bytes = items ++ walk rest := by
  have hlen := length_readItem h
  cases bytes with
  | nil => simp [readItem] at h
  | cons x tail =>
    simp only [walk,List.length_cons,walkFrom,h]
    rw [walkFrom_of_le (by simpa using Nat.lt_succ_iff.1 hlen)]
    rfl

theorem walk_of_readItem_none {x : UInt8} {rest : Bytes} (h : readItem (x :: rest) = none) :
    walk (x :: rest) = [.trailing (x :: rest)] := by
  simp only [walk,List.length_cons,walkFrom,h]

end reader

section stripping

/-- What the loop reads in one turn: a marker with no length or a segment, not of a scan. -/
inductive Turn : Item → Prop
  | marker {m : UInt8} (alone : isStandalone m) : Turn (.marker 0 m)
  | segment {m high low : UInt8} {rest : Bytes} (alone : ¬ isStandalone m) (scan : m ≠ 0xda)
      (len : rest.length + 2 = high.toNat * 256 + low.toNat) :
      Turn (.segment 0 m (high :: low :: rest))

theorem Turn.isStartOfScan {item : Item} (h : Turn item) : item.isStartOfScan = false := by
  cases h with
  | marker => rfl
  | segment _ scan _ => simpa [Item.isStartOfScan] using scan

def keptBytes (item : Item) : Bytes := if item.isMetadata then [] else item.encode

theorem stripJpegSegments_turn {n : Nat} {bytes out result : Bytes}
    (h : stripJpegSegments (n + 1) bytes out = some result) :
    (∃ rest, bytes = 0xff :: 0xda :: rest ∧ result = out ++ bytes) ∨
      ∃ item rest, Turn item ∧ bytes = item.encode ++ rest ∧
        stripJpegSegments n rest (out ++ keptBytes item) = some result := by
  match bytes, h with
  | x :: marker :: rest, h =>
    simp only [stripJpegSegments] at h
    rw [Option.ite_none_left_eq_some,not_not] at h
    obtain ⟨rfl,h⟩ := h
    by_cases hscan : marker = 0xda
    · simp only [hscan,if_true,Option.some.injEq] at h
      exact .inl ⟨rest,by rw [hscan],by rw [← h,hscan]⟩
    right
    rw [if_neg hscan] at h
    by_cases halone : isStandalone marker
    · rw [if_pos halone] at h
      refine ⟨.marker 0 marker,rest,.marker halone,rfl,?_⟩
      simpa [keptBytes,Item.isMetadata,Item.encode] using h
    rw [if_neg halone] at h
    match rest, h with
    | high :: low :: rest, h =>
      dsimp only at h
      rw [Option.ite_none_left_eq_some] at h
      obtain ⟨hlen,h⟩ := h
      simp only [not_or,Nat.not_lt,List.length_cons] at hlen
      obtain ⟨len,hlen'⟩ : ∃ len, high.toNat * 256 + low.toNat = len + 2 :=
        ⟨high.toNat * 256 + low.toNat - 2,by omega⟩
      rw [hlen'] at h hlen
      refine ⟨.segment 0 marker (high :: low :: rest.take len),rest.drop len,
        .segment halone hscan ?_,?_,?_⟩
      · rw [hlen',List.length_take]
        omega
      · simp [Item.encode]
      · have hmeta : (Item.segment 0 marker (high :: low :: rest.take len)).isMetadata =
            isDropped marker := rfl
        rw [keptBytes,hmeta]
        by_cases hdrop : isDropped marker
        · simpa [hdrop] using h
        · simpa [hdrop,Item.encode] using h

theorem readItem_encode {item : Item} (h : Turn item) (rest : Bytes)
    (hfill : ∀ fill payload, item ≠ .segment fill 0xff payload) :
    readItem (item.encode ++ rest) = some ([item],rest) := by
  cases h with
  | @marker m alone =>
    have hm : m ≠ 0xff := by
      rintro rfl
      exact absurd alone (by decide)
    simp [Item.encode,readItem,skipFill,hm,alone]
  | @segment m high low payload alone scan len =>
    have hm : m ≠ 0xff := by
      rintro rfl
      exact hfill _ _ rfl
    simp only [Item.encode,readItem,List.replicate_zero,List.nil_append,List.cons_append,skipFill,
      hm,if_false,ne_eq,not_true,alone,Bool.false_eq_true,readPayload,← len]
    simp [scan]

/-- No fill byte before the first start of a scan, nor before that. -/
def unpadded : List Item → Bool
  | [] => true
  | item :: items => !item.isPadded && (item.isStartOfScan || unpadded items)

def fromScan (items : List Item) : List Item := items.dropWhile (!·.isStartOfScan)

theorem not_unpadded (rest : Bytes) : unpadded (walk (0xff :: 0xff :: rest)) = false := by
  cases hread : readItem (0xff :: 0xff :: rest) with
  | none => simp [walk_of_readItem_none hread,unpadded,Item.isPadded]
  | some read =>
    obtain ⟨items,more⟩ := read
    rw [walk_of_readItem hread]
    simp only [readItem,skipFill,ne_eq,not_true,if_false,if_true] at hread
    split at hread
    · contradiction
    next fill m tail heq =>
    have hfill : 0 < fill := by
      rw [← (Prod.mk.inj heq).1]
      omega
    split at hread
    · simp only [Option.some.injEq,Prod.mk.injEq] at hread
      simp [← hread.1,unpadded,Item.isPadded,hfill]
    · obtain ⟨_,_,hread⟩ := Option.map_eq_some_iff.1 hread
      split at hread <;> simp [← (Prod.mk.inj hread).1,unpadded,Item.isPadded,hfill]

def Plain (items : List Item) : Prop :=
  ∀ item ∈ items, Turn item ∧ ∀ fill payload, item ≠ .segment fill 0xff payload

theorem walk_flatMap : ∀ {items : List Item}, Plain items → ∀ tail : Bytes,
    walk (items.flatMap Item.encode ++ tail) = items ++ walk tail
  | [], _, tail => rfl
  | item :: items, h, tail => by
    obtain ⟨hturn,hfill⟩ := h item (by simp)
    rw [List.flatMap_cons,List.append_assoc,
      walk_of_readItem (readItem_encode hturn _ hfill),
      walk_flatMap (fun i hi => h i (by simp [hi])) tail]
    rfl

theorem stripJpegSegments_unpadded : ∀ {n : Nat} {bytes out result : Bytes},
    stripJpegSegments n bytes out = some result → unpadded (walk bytes) →
      ∃ items rest, Plain items ∧ bytes = items.flatMap Item.encode ++ 0xff :: 0xda :: rest ∧
        result = out ++ (items.filter (!·.isMetadata)).flatMap Item.encode ++ 0xff :: 0xda :: rest
  | 0, bytes, out, result, h, _ => by simp [stripJpegSegments] at h
  | n + 1, bytes, out, result, h, hu => by
    obtain ⟨rest,rfl,rfl⟩ | ⟨item,rest,hturn,rfl,hloop⟩ := stripJpegSegments_turn h
    · exact ⟨[],rest,by simp [Plain],rfl,by simp⟩
    have hfill : ∀ fill payload, item ≠ .segment fill 0xff payload := by
      rintro fill payload rfl
      cases hturn
      rw [Item.encode,List.replicate_zero,List.nil_append,List.cons_append,List.cons_append,
        not_unpadded] at hu
      contradiction
    rw [walk_of_readItem (readItem_encode hturn rest hfill)] at hu
    have hu' : unpadded (walk rest) := by
      simp only [List.singleton_append,unpadded,hturn.isStartOfScan,Bool.false_or,
        Bool.and_eq_true] at hu
      exact hu.2
    obtain ⟨items,tail,hplain,rfl,rfl⟩ := stripJpegSegments_unpadded hloop hu'
    refine ⟨item :: items,tail,?_,by simp,?_⟩
    · intro i hi
      rcases List.mem_cons.1 hi with rfl | hi
      · exact ⟨hturn,hfill⟩
      · exact hplain i hi
    · by_cases hmeta : item.isMetadata
      · simp [keptBytes,hmeta]
      · simp [keptBytes,hmeta]

theorem fromScan_walk (rest : Bytes) :
    (∀ item ∈ walk (0xff :: 0xda :: rest), item.isMetadata = false) ↔
      ∀ item ∈ fromScan (walk (0xff :: 0xda :: rest)), item.isMetadata = false := by
  cases hread : readItem (0xff :: 0xda :: rest) with
  | none => simp [walk_of_readItem_none hread,fromScan,Item.isStartOfScan,Item.isMetadata]
  | some read =>
    obtain ⟨items,more⟩ := read
    rw [walk_of_readItem hread]
    simp [readItem,skipFill,isStandalone] at hread
    obtain ⟨payload,after,_,rfl,_⟩ := hread
    simp [fromScan,Item.isStartOfScan]

/-- Nothing a reader meets in the output is metadata, and it meets all else it met before. -/
def JpegClean (b out : Bytes) : Prop :=
  (∀ item ∈ walk out, item.isMetadata = false) ∧
    ((walk b).filter (!·.isMetadata)).Sublist (walk out)

theorem walk_start (rest : Bytes) :
    walk (0xff :: 0xd8 :: rest) = .marker 0 0xd8 :: walk rest := by
  have hread : readItem (0xff :: 0xd8 :: rest) = some ([.marker 0 0xd8],rest) := by
    simp [readItem,skipFill,isStandalone]
  exact walk_of_readItem hread

theorem Plain.fromScan {items : List Item} (h : Plain items) (after : List Item) :
    fromScan (items ++ after) = fromScan after := by
  apply List.dropWhile_append_of_pos
  intro item hitem
  simp [(h item hitem).1.isStartOfScan]

/-- Where no fill byte comes before the scans, the output is clean just where no metadata is met
from the first scan on. -/
theorem jpegClean_iff {b out : Bytes} (h : stripImageMetadata b .jpeg = some out)
    (hu : unpadded (walk b)) :
    JpegClean b out ↔ ∀ item ∈ fromScan (walk b), item.isMetadata = false := by
  change stripJpeg b = some out at h
  unfold stripJpeg at h
  split at h
  next rest =>
    rw [Option.ite_none_left_eq_some] at h
    obtain ⟨_,hloop⟩ := h
    rw [walk_start] at hu ⊢
    have hu : unpadded (walk rest) := by
      simpa [unpadded,Item.isPadded,Item.isStartOfScan] using hu
    obtain ⟨items,scans,hplain,rfl,rfl⟩ := stripJpegSegments_unpadded hloop hu
    have hkept : Plain (items.filter (!·.isMetadata)) :=
      fun item hitem => hplain item (List.mem_filter.1 hitem).1
    have hout : walk ([0xff,0xd8] ++ (items.filter (!·.isMetadata)).flatMap Item.encode ++
        0xff :: 0xda :: scans) = .marker 0 0xd8 ::
          (items.filter (!·.isMetadata) ++ walk (0xff :: 0xda :: scans)) := by
      rw [List.append_assoc,List.cons_append,List.cons_append,List.nil_append,walk_start,
        walk_flatMap hkept]
    have hscan : fromScan (.marker 0 0xd8 :: walk (items.flatMap Item.encode ++
        0xff :: 0xda :: scans)) = fromScan (walk (0xff :: 0xda :: scans)) := by
      rw [walk_flatMap hplain,← hplain.fromScan (walk (0xff :: 0xda :: scans))]
      rfl
    rw [hscan,← fromScan_walk,JpegClean,hout]
    constructor
    · rintro ⟨hclean,_⟩ item hitem
      exact hclean item (by simp [hitem])
    · intro hclean
      constructor
      · intro item hitem
        simp only [List.mem_cons,List.mem_append] at hitem
        rcases hitem with rfl | hitem | hitem
        · rfl
        · simpa using (List.mem_filter.1 hitem).2
        · exact hclean item hitem
      · rw [walk_start,walk_flatMap hplain,List.filter_cons_of_pos (by rfl),List.filter_append]
        exact ((List.Sublist.refl _).append List.filter_sublist).cons_cons _
  next => contradiction

section concrete

def secondScan : Bytes :=
  [0xff,0xd8,0xff,0xda,0,2,0x11,0xff,0xe1,0,4,0x47,0x50,0xff,0xda,0,2,0x22,0xff,0xd9]

/-- It is given out as it came, with its metadata. -/
theorem secondScan_not_clean : ¬ ∀ b out, stripImageMetadata b .jpeg = some out →
    JpegClean b out := by
  intro h
  have hclean := (h secondScan secondScan (by decide)).1
  exact absurd (hclean (.segment 0 0xe1 [0,4,0x47,0x50]) (by decide)) (by decide)

def oneScan : Bytes :=
  [0xff,0xd8,0xff,0xe1,0,4,0x47,0x50,0xff,0xda,0,2,0x11,0xff,0xd9]

theorem jpegClean_iff_oneScan : JpegClean oneScan [0xff,0xd8,0xff,0xda,0,2,0x11,0xff,0xd9] ↔
    ∀ item ∈ fromScan (walk oneScan), item.isMetadata = false :=
  jpegClean_iff (by decide) (by decide)

end concrete

end stripping

end Yurucommu.StripImage
