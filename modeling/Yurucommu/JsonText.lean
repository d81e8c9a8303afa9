import Yurucommu.Utf16

/-!
The text of a JSON value, and the value of a text. A string is its UTF-16 code units; an object
lists its members as its own properties are ordered, array indices first. How a finite number is
written and read is a parameter.
-/

set_option autoImplicit false

namespace JsonText

open Utf16 (IsUnits Paired isLeading isTrailing isSurrogate)

abbrev Units := List Nat

/-- What a number is read as: a finite one, minus zero, or one that is too large. -/
inductive Number (ν : Type) where
  | finite (value : ν)
  | minusZero
  | infinite (negative : Bool)
deriving DecidableEq, Repr

inductive Json (ν : Type) where
  | null
  | bool (value : Bool)
  | number (value : Number ν)
  | string (value : Units)
  | array (entries : List (Json ν))
  | object (members : List (Units × Json ν))

def isNumeral (u : Nat) : Bool :=
  (48 ≤ u && u ≤ 57) || u = 43 || u = 45 || u = 46 || u = 69 || u = 101

/-- What a finite number is written as is read as the same number. -/
structure NumberFormat (ν : Type) where
  text : ν → Units
  read : Units → Option (Number ν)
  text_ne_nil : ∀ x, text x ≠ []
  text_numeral : ∀ x, ∀ u ∈ text x, isNumeral u = true
  read_text : ∀ x, read (text x) = some (.finite x)

section stringify

def hexDigit (n : Nat) : Nat := if n < 10 then 48 + n else 87 + n

def unicodeEscape (u : Nat) : Units :=
  [92,117,hexDigit (u / 4096 % 16),hexDigit (u / 256 % 16),hexDigit (u / 16 % 16),hexDigit (u % 16)]

def escaped (u : Nat) : Units :=
  if u = 34 then [92,34]
  else if u = 92 then [92,92]
  else if u = 8 then [92,98]
  else if u = 9 then [92,116]
  else if u = 10 then [92,110]
  else if u = 12 then [92,102]
  else if u = 13 then [92,114]
  else if u < 32 ∨ isSurrogate u = true then unicodeEscape u
  else [u]

/-- A surrogate without its other half is escaped. -/
def escapeAll : Units → Units
  | u :: v :: rest =>
    if isLeading u = true ∧ isTrailing v = true then u :: v :: escapeAll rest
    else escaped u ++ escapeAll (v :: rest)
  | [u] => escaped u
  | [] => []

def quoted (t : Units) : Units := 34 :: escapeAll t ++ [34]

def commas : List Units → Units
  | [] => []
  | [t] => t
  | t :: ts => t ++ 44 :: commas ts

def nullText : Units := [110,117,108,108]
def trueText : Units := [116,114,117,101]
def falseText : Units := [102,97,108,115,101]

variable {ν : Type} [Zero ν] (F : NumberFormat ν)

def numberText : Number ν → Units
  | .finite value => F.text value
  | .minusZero => F.text 0
  | .infinite _ => nullText

mutual

def stringify : Json ν → Units
  | .null => nullText
  | .bool value => if value then trueText else falseText
  | .number value => numberText F value
  | .string value => quoted value
  | .array entries => 91 :: commas (stringifyAll entries) ++ [93]
  | .object members => 123 :: commas (stringifyMembers members) ++ [125]

def stringifyAll : List (Json ν) → List Units
  | [] => []
  | value :: rest => stringify value :: stringifyAll rest

def stringifyMembers : List (Units × Json ν) → List Units
  | [] => []
  | (key,value) :: rest => (quoted key ++ 58 :: stringify value) :: stringifyMembers rest

end

end stringify

section parse

def isSpace (u : Nat) : Bool := u = 32 || u = 9 || u = 10 || u = 13

def skipSpace (t : Units) : Units := t.dropWhile isSpace

def hexValue (u : Nat) : Option Nat :=
  if 48 ≤ u ∧ u ≤ 57 then some (u - 48)
  else if 65 ≤ u ∧ u ≤ 70 then some (u - 55)
  else if 97 ≤ u ∧ u ≤ 102 then some (u - 87)
  else none

def hexUnit (a b c d : Nat) : Option Nat :=
  (hexValue a).bind fun a => (hexValue b).bind fun b => (hexValue c).bind fun c =>
    (hexValue d).map fun d => a * 4096 + b * 256 + c * 16 + d

def unescape (u : Nat) : Option Nat :=
  if u = 34 ∨ u = 92 ∨ u = 47 then some u
  else if u = 98 then some 8
  else if u = 116 then some 9
  else if u = 110 then some 10
  else if u = 102 then some 12
  else if u = 114 then some 13
  else none

def prepend (u : Nat) (read : Option (Units × Units)) : Option (Units × Units) :=
  read.map fun r => (u :: r.1,r.2)

def parseString : Units → Option (Units × Units)
  | [] => none
  | 34 :: rest => some ([],rest)
  | 92 :: 117 :: a :: b :: c :: d :: rest =>
    (hexUnit a b c d).bind fun u => prepend u (parseString rest)
  | 92 :: u :: rest => (unescape u).bind fun v => prepend v (parseString rest)
  | u :: rest => if u < 32 ∨ u = 92 then none else prepend u (parseString rest)

variable {α ν : Type}

def parseItems (close : Nat) (item : Units → Option (α × Units)) : Nat → Units →
    Option (List α × Units)
  | 0, _ => none
  | n + 1, t => (item t).bind fun x =>
    match skipSpace x.2 with
    | [] => none
    | u :: rest =>
      if u = close then some ([x.1],rest)
      else if u = 44 then (parseItems close item n rest).map fun xs => (x.1 :: xs.1,xs.2)
      else none

def parseSequence (close : Nat) (item : Units → Option (α × Units)) (n : Nat) (t : Units) :
    Option (List α × Units) :=
  match skipSpace t with
  | [] => none
  | u :: rest => if u = close then some ([],rest) else parseItems close item n t

def parseMember (item : Units → Option (α × Units)) (t : Units) : Option ((Units × α) × Units) :=
  match skipSpace t with
  | 34 :: rest => (parseString rest).bind fun key =>
    match skipSpace key.2 with
    | 58 :: rest => (item rest).map fun x => ((key.1,x.1),x.2)
    | _ => none
  | _ => none

def decimal (n : Nat) : Units :=
  if n = 0 then [48] else ((Nat.digits 10 n).map (48 + ·)).reverse

def arrayIndex (key : Units) : Option Nat :=
  let n := Nat.ofDigits 10 ((key.map (· - 48)).reverse)
  if decimal n = key ∧ n < 4294967295 then some n else none

/-- Whether a new property goes before one that is there. -/
def precedes (key other : Units) : Bool :=
  match arrayIndex key, arrayIndex other with
  | some n, some m => n < m
  | some _, none => true
  | none, _ => false

/-- A property is set in its place; a new one comes in behind those before it. -/
def setMember (key : Units) (value : α) : List (Units × α) → List (Units × α)
  | [] => [(key,value)]
  | m :: rest =>
    if m.1 = key then (key,value) :: rest
    else if precedes key m.1 then (key,value) :: m :: rest
    else m :: setMember key value rest

def toObject (members : List (Units × α)) : List (Units × α) :=
  members.foldl (fun object m => setMember m.1 m.2 object) []

def parseNumber (F : NumberFormat ν) (t : Units) : Option (Json ν × Units) :=
  (F.read (t.takeWhile isNumeral)).map fun x => (.number x,t.dropWhile isNumeral)

def parseValue (F : NumberFormat ν) : Nat → Units → Option (Json ν × Units)
  | 0, _ => none
  | n + 1, t =>
    match skipSpace t with
    | 34 :: rest => (parseString rest).map fun s => (.string s.1,s.2)
    | 91 :: rest => (parseSequence 93 (parseValue F n) n rest).map fun xs => (.array xs.1,xs.2)
    | 123 :: rest =>
      (parseSequence 125 (parseMember (parseValue F n)) n rest).map fun ms =>
        (.object (toObject ms.1),ms.2)
    | 110 :: 117 :: 108 :: 108 :: rest => some (.null,rest)
    | 116 :: 114 :: 117 :: 101 :: rest => some (.bool true,rest)
    | 102 :: 97 :: 108 :: 115 :: 101 :: rest => some (.bool false,rest)
    | t => parseNumber F t

/-- `JSON.parse`; none where it throws. -/
def parse (F : NumberFormat ν) (t : Units) : Option (Json ν) :=
  (parseValue F (t.length + 1) t).bind fun r => if skipSpace r.2 = [] then some r.1 else none

end parse

section strings

variable {u : Nat} {s t : Units}

theorem hexValue_hexDigit : ∀ n < 16, hexValue (hexDigit n) = some n := by decide

theorem hexUnit_unicodeEscape (h : u < 65536) :
    hexUnit (hexDigit (u / 4096 % 16)) (hexDigit (u / 256 % 16)) (hexDigit (u / 16 % 16))
      (hexDigit (u % 16)) = some u := by
  have hlt (n : Nat) : n % 16 < 16 := Nat.mod_lt n (by decide)
  unfold hexUnit
  rw [hexValue_hexDigit _ (hlt _),hexValue_hexDigit _ (hlt _),hexValue_hexDigit _ (hlt _),
    hexValue_hexDigit _ (hlt _)]
  simp only [Option.bind_some,Option.map_some,Option.some.injEq]
  omega

theorem parseString_plain (hmin : 32 ≤ u) (hquote : u ≠ 34) (hescape : u ≠ 92) :
    parseString (u :: t) = prepend u (parseString t) := by
  have hno : ¬(u < 32 ∨ u = 92) := by omega
  rw [parseString.eq_def]
  split <;> simp_all

theorem parseString_escaped (u : Nat) (t : Units) :
    parseString (escaped u ++ t) = prepend u (parseString t) := by
  have hshort {v w : Nat} (h : unescape v = some w) :
      parseString ([92,v] ++ t) = prepend w (parseString t) := by
    have hno : v ≠ 117 := by
      intro hv
      rw [hv] at h
      cases h
    have hread : parseString (92 :: v :: t) =
        (unescape v).bind fun w => prepend w (parseString t) :=
      parseString.eq_4 _ _ fun _ _ _ _ _ hv _ => hno hv
    rw [List.cons_append,List.cons_append,List.nil_append,hread,h]
    rfl
  unfold escaped
  split_ifs with h₁ h₂ h₃ h₄ h₅ h₆ h₇ h₈
  · rw [h₁]
    exact hshort rfl
  · rw [h₂]
    exact hshort rfl
  · rw [h₃]
    exact hshort rfl
  · rw [h₄]
    exact hshort rfl
  · rw [h₅]
    exact hshort rfl
  · rw [h₆]
    exact hshort rfl
  · rw [h₇]
    exact hshort rfl
  · have hlt : u < 65536 := by
      simp only [isSurrogate,Bool.and_eq_true,decide_eq_true_eq] at h₈
      omega
    simp only [unicodeEscape,List.cons_append,List.nil_append,parseString,
      hexUnit_unicodeEscape hlt,Option.bind_some]
  · exact parseString_plain (by omega) h₁ h₂

theorem parseString_escapeAll (s t : Units) :
    parseString (escapeAll s ++ 34 :: t) = some (s,t) := by
  induction s using escapeAll.induct with
  | case1 u v rest hpair ih =>
    simp only [isLeading,isTrailing,Bool.and_eq_true,decide_eq_true_eq] at hpair
    rw [escapeAll,if_pos (by simpa [isLeading,isTrailing] using hpair),List.cons_append,
      List.cons_append,parseString_plain (by omega) (by omega) (by omega),
      parseString_plain (by omega) (by omega) (by omega),ih]
    rfl
  | case2 u v rest hno ih =>
    rw [escapeAll,if_neg hno,List.append_assoc,parseString_escaped,ih]
    rfl
  | case3 u =>
    rw [escapeAll,parseString_escaped]
    rfl
  | case4 => rfl

end strings

section sequences

variable {α β : Type} {u close n : Nat} {t rest : Units} {item : Units → Option (α × Units)}
  {text : β → Units} {value : β → α} {xs : List β}

theorem skipSpace_cons (h : isSpace u = false) : skipSpace (u :: t) = u :: t := by
  unfold skipSpace
  rw [List.dropWhile_cons,if_neg (by simp [h])]

theorem commas_cons_cons {ts : List Units} {s : Units} :
    commas (s :: t :: ts) = s ++ 44 :: commas (t :: ts) := rfl

theorem length_le_commas {ts : List Units} (ht : t ∈ ts) : t.length ≤ (commas ts).length := by
  induction ts with
  | nil => cases ht
  | cons s ts ih =>
    cases ts with
    | nil =>
      rw [List.mem_singleton.mp ht]
      exact le_rfl
    | cons s' ts =>
      rw [commas_cons_cons,List.length_append,List.length_cons]
      obtain rfl | ht := List.mem_cons.mp ht
      · omega
      · have hle := ih ht
        omega

theorem card_le_commas {ts : List Units} (h : ∀ t ∈ ts, t ≠ []) :
    ts.length ≤ (commas ts).length := by
  induction ts with
  | nil => exact le_rfl
  | cons s ts ih =>
    have hpos := List.length_pos_of_ne_nil (h s List.mem_cons_self)
    cases ts with
    | nil => exact hpos
    | cons s' ts =>
      have hle := ih fun t ht => h t (List.mem_cons_of_mem s ht)
      rw [commas_cons_cons,List.length_append]
      simp only [List.length_cons] at hle ⊢
      omega

theorem parseItems_commas (hcomma : close ≠ 44) (hspace : isSpace close = false)
    (hitem : ∀ x ∈ xs, ∀ sep rest, sep = close ∨ sep = 44 →
      item (text x ++ sep :: rest) = some (value x,sep :: rest))
    (hxs : xs ≠ []) (hn : xs.length ≤ n) :
    parseItems close item n (commas (xs.map text) ++ close :: rest) =
      some (xs.map value,rest) := by
  induction xs generalizing n with
  | nil => exact absurd rfl hxs
  | cons x xs ih =>
    cases n with
    | zero => cases hn
    | succ n =>
      have hx := hitem x List.mem_cons_self
      cases xs with
      | nil =>
        simp only [List.map_cons,List.map_nil,commas,parseItems]
        rw [hx close rest (.inl rfl),Option.bind_some]
        simp only [skipSpace_cons hspace,if_pos]
      | cons y ys =>
        have hrest := ih (n := n) (fun x hx => hitem x (List.mem_cons_of_mem _ hx))
          (List.cons_ne_nil _ _) (Nat.le_of_succ_le_succ hn)
        rw [List.map_cons,List.map_cons,commas_cons_cons,← List.map_cons,List.append_assoc,
          List.cons_append,parseItems,hx 44 _ (.inr rfl),Option.bind_some]
        simp only [skipSpace_cons (u := 44) rfl]
        rw [if_neg (Ne.symm hcomma),if_pos trivial,hrest]
        rfl

theorem parseSequence_commas (hcomma : close ≠ 44) (hspace : isSpace close = false)
    (hitem : ∀ x ∈ xs, ∀ sep rest, sep = close ∨ sep = 44 →
      item (text x ++ sep :: rest) = some (value x,sep :: rest))
    (hstart : ∀ x ∈ xs, ∃ u t, text x = u :: t ∧ isSpace u = false ∧ u ≠ close)
    (hn : xs.length ≤ n) :
    parseSequence close item n (commas (xs.map text) ++ close :: rest) =
      some (xs.map value,rest) := by
  cases xs with
  | nil =>
    unfold parseSequence
    simp [commas,skipSpace_cons hspace]
  | cons x xs =>
    obtain ⟨u,t,ht,hu,hne⟩ := hstart x List.mem_cons_self
    have hitems : parseItems close item n (commas ((x :: xs).map text) ++ close :: rest) =
        some ((x :: xs).map value,rest) :=
      parseItems_commas hcomma hspace hitem (List.cons_ne_nil x xs) hn
    have hhead : ∃ t', commas ((x :: xs).map text) ++ close :: rest = u :: t' := by
      cases xs with
      | nil => exact ⟨t ++ close :: rest,by rw [List.map_singleton,commas,ht,List.cons_append]⟩
      | cons y ys =>
        refine ⟨t ++ 44 :: commas ((y :: ys).map text) ++ close :: rest,?_⟩
        rw [List.map_cons,List.map_cons,commas_cons_cons,ht]
        rfl
    obtain ⟨t',ht'⟩ := hhead
    unfold parseSequence
    rw [ht'] at hitems ⊢
    simp only [skipSpace_cons hu,if_neg hne]
    exact hitems

end sequences

section objects

variable {α : Type} {key other : Units} {value : α} {members : List (Units × α)}

/-- Own properties: array indices, from the smallest, and then the other keys. -/
def Before (key other : Units) : Prop :=
  match arrayIndex key, arrayIndex other with
  | some n, some m => n < m
  | some _, none => True
  | none, some _ => False
  | none, none => key ≠ other

theorem Before.ne (h : Before key other) : key ≠ other := by
  rintro rfl
  unfold Before at h
  split at h
  · simp_all
  · simp_all
  · exact h
  · exact h rfl

theorem Before.not_precedes (h : Before key other) : precedes other key = false := by
  unfold Before at h
  unfold precedes
  cases hk : arrayIndex key with
  | none =>
    cases ho : arrayIndex other with
    | none => rfl
    | some m =>
      rw [hk,ho] at h
      exact h.elim
  | some n =>
    cases ho : arrayIndex other with
    | none => rfl
    | some m =>
      rw [hk,ho] at h
      exact decide_eq_false (Nat.not_lt.mpr h.le)

theorem setMember_last (h : ∀ m ∈ members, Before m.1 key) :
    setMember key value members = members ++ [(key,value)] := by
  induction members with
  | nil => rfl
  | cons m members ih =>
    have hm := h m List.mem_cons_self
    rw [setMember,if_neg hm.ne,hm.not_precedes,if_neg Bool.false_ne_true,
      ih fun m hm => h m (List.mem_cons_of_mem _ hm),List.cons_append]

theorem toObject_ordered (h : (members.map Prod.fst).Pairwise Before) :
    toObject members = members := by
  have hfold : ∀ behind : List (Units × α), ((behind ++ members).map Prod.fst).Pairwise Before →
      members.foldl (fun object m => setMember m.1 m.2 object) behind = behind ++ members := by
    clear h
    induction members with
    | nil => exact fun behind _ => (List.append_nil behind).symm
    | cons m members ih =>
      intro behind hbehind
      have hsplit : behind ++ m :: members = (behind ++ [m]) ++ members := by
        rw [List.append_assoc,List.singleton_append]
      have hlast : ∀ b ∈ behind, Before b.1 m.1 := by
        rw [List.map_append,List.pairwise_append] at hbehind
        exact fun b hb => hbehind.2.2 b.1 (List.mem_map_of_mem hb) m.1
          (List.mem_map_of_mem List.mem_cons_self)
      rw [List.foldl_cons,setMember_last hlast,hsplit]
      exact ih _ (hsplit ▸ hbehind)
  exact hfold [] h

end objects

section values

variable {ν : Type} [Zero ν] {F : NumberFormat ν} {v : Json ν} {n : Nat} {t rest : Units}

def rereadNumber : Number ν → Json ν
  | .finite value => .number (.finite value)
  | .minusZero => .number (.finite 0)
  | .infinite _ => .null

mutual

def reread : Json ν → Json ν
  | .number value => rereadNumber value
  | .array entries => .array (rereadAll entries)
  | .object members => .object (rereadMembers members)
  | v => v

def rereadAll : List (Json ν) → List (Json ν)
  | [] => []
  | value :: rest => reread value :: rereadAll rest

def rereadMembers : List (Units × Json ν) → List (Units × Json ν)
  | [] => []
  | (key,value) :: rest => (key,reread value) :: rereadMembers rest

end

/-- Strings are of code units, and every object lists each of its properties once, in their
order. -/
inductive Proper : Json ν → Prop where
  | null : Proper .null
  | bool (value : Bool) : Proper (.bool value)
  | number (value : Number ν) : Proper (.number value)
  | string {value : Units} (units : IsUnits value) : Proper (.string value)
  | array {entries : List (Json ν)} (h : ∀ v ∈ entries, Proper v) : Proper (.array entries)
  | object {members : List (Units × Json ν)} (keys : (members.map Prod.fst).Pairwise Before)
      (units : ∀ m ∈ members, IsUnits m.1) (h : ∀ m ∈ members, Proper m.2) :
      Proper (.object members)

theorem stringifyAll_eq (entries : List (Json ν)) :
    stringifyAll F entries = entries.map (stringify F) := by
  induction entries with
  | nil => rfl
  | cons v entries ih => rw [stringifyAll,ih,List.map_cons]

theorem stringifyMembers_eq (members : List (Units × Json ν)) :
    stringifyMembers F members = members.map fun m => quoted m.1 ++ 58 :: stringify F m.2 := by
  induction members with
  | nil => rfl
  | cons m members ih => rw [stringifyMembers,ih,List.map_cons]

theorem rereadAll_eq (entries : List (Json ν)) :
    rereadAll entries = entries.map (reread) := by
  induction entries with
  | nil => rfl
  | cons v entries ih => rw [rereadAll,ih,List.map_cons]

theorem rereadMembers_eq (members : List (Units × Json ν)) :
    rereadMembers members = members.map fun m => (m.1,reread m.2) := by
  induction members with
  | nil => rfl
  | cons m members ih => rw [rereadMembers,ih,List.map_cons]

theorem numeral_ne {u : Nat} (h : isNumeral u = true) : isSpace u = false ∧ u ≠ 34 ∧ u ≠ 91 ∧
    u ≠ 93 ∧ u ≠ 102 ∧ u ≠ 110 ∧ u ≠ 116 ∧ u ≠ 123 ∧ u ≠ 125 := by
  simp only [isNumeral,isSpace,Bool.or_eq_true,Bool.and_eq_true,decide_eq_true_eq,
    Bool.or_eq_false_iff,decide_eq_false_iff_not] at h ⊢
  omega

omit [Zero ν] in
theorem numberText_start (x : ν) : ∃ u t, F.text x = u :: t ∧ isNumeral u = true := by
  obtain ⟨u,t,ht⟩ := List.exists_cons_of_ne_nil (F.text_ne_nil x)
  exact ⟨u,t,ht,F.text_numeral x u (ht ▸ List.mem_cons_self)⟩

theorem stringify_start (v : Json ν) : ∃ u t, stringify F v = u :: t ∧ isSpace u = false ∧
    u ≠ 93 ∧ u ≠ 125 := by
  have hfinite (x : ν) : ∃ u t, F.text x = u :: t ∧ isSpace u = false ∧ u ≠ 93 ∧ u ≠ 125 := by
    obtain ⟨u,t,ht,hu⟩ := numberText_start (F := F) x
    obtain ⟨hspace,_,_,hlist,_,_,_,_,hobject⟩ := numeral_ne hu
    exact ⟨u,t,ht,hspace,hlist,hobject⟩
  cases v with
  | null => exact ⟨_,_,rfl,by decide⟩
  | bool value => cases value <;> exact ⟨_,_,rfl,by decide⟩
  | number value =>
    cases value with
    | finite x => exact hfinite x
    | minusZero => exact hfinite 0
    | infinite => exact ⟨_,_,rfl,by decide⟩
  | string value => exact ⟨_,_,rfl,by decide⟩
  | array entries => exact ⟨_,_,rfl,by decide⟩
  | object members => exact ⟨_,_,rfl,by decide⟩

/-- No number goes on where one has ended. -/
def Stops (rest : Units) : Prop := ∀ u ∈ rest.head?, isNumeral u = false

omit [Zero ν] in
theorem parseValue_number {x : ν} (hrest : Stops rest) :
    parseValue F (n + 1) (F.text x ++ rest) = some (.number (.finite x),rest) := by
  obtain ⟨u,t,ht,hu⟩ := numberText_start (F := F) x
  obtain ⟨hspace,h₁,h₂,h₃,h₄,h₅,h₆,h₇,h₈⟩ := numeral_ne hu
  have hstep : parseValue F (n + 1) (F.text x ++ rest) = parseNumber F (F.text x ++ rest) := by
    rw [ht,List.cons_append,parseValue,skipSpace_cons hspace]
    split <;> simp_all
  have htake : (F.text x ++ rest).takeWhile isNumeral = F.text x := by
    rw [List.takeWhile_append_of_pos (F.text_numeral x)]
    cases rest with
    | nil => rw [List.takeWhile_nil,List.append_nil]
    | cons u rest => rw [List.takeWhile_cons,hrest u rfl,if_neg Bool.false_ne_true,List.append_nil]
  have hdrop : (F.text x ++ rest).dropWhile isNumeral = rest := by
    rw [List.dropWhile_append_of_pos (F.text_numeral x)]
    cases rest with
    | nil => rfl
    | cons u rest => rw [List.dropWhile_cons,hrest u rfl,if_neg Bool.false_ne_true]
  rw [hstep,parseNumber,htake,hdrop,F.read_text]
  rfl

theorem parseMember_text {key : Units} (hv : ∀ rest, Stops rest →
      parseValue F n (stringify F v ++ rest) = some (reread v,rest)) (hrest : Stops rest) :
    parseMember (parseValue F n) ((quoted key ++ 58 :: stringify F v) ++ rest) =
      some ((key,reread v),rest) := by
  have hquoted : (quoted key ++ 58 :: stringify F v) ++ rest =
      34 :: (escapeAll key ++ 34 :: 58 :: (stringify F v ++ rest)) := by
    simp [quoted]
  unfold parseMember
  rw [hquoted,skipSpace_cons (u := 34) rfl]
  simp only [parseString_escapeAll,Option.bind_some,skipSpace_cons (u := 58) rfl,hv rest hrest,
    Option.map_some]

theorem stops_closed {sep : Nat} (h : sep = 93 ∨ sep = 125 ∨ sep = 44) : Stops (sep :: rest) := by
  intro u hu
  obtain rfl := Option.some.inj hu
  obtain rfl | rfl | rfl := h <;> rfl

/-- A value is read back from its text, whatever follows that is no numeral. -/
theorem parseValue_stringify (h : Proper v) (hn : (stringify F v).length ≤ n)
    (hrest : Stops rest) :
    parseValue F (n + 1) (stringify F v ++ rest) = some (reread v,rest) := by
  induction h generalizing n rest with
  | null => rfl
  | bool value => cases value <;> rfl
  | number value =>
    cases value with
    | finite x => exact parseValue_number hrest
    | minusZero => exact parseValue_number hrest
    | infinite => rfl
  | @string value _ =>
    have htext : stringify F (.string value) ++ rest = 34 :: (escapeAll value ++ 34 :: rest) := by
      simp [stringify,quoted]
    rw [htext,parseValue,skipSpace_cons (u := 34) rfl]
    simp only [parseString_escapeAll,Option.map_some]
    rfl
  | @array entries _ ih =>
    have htext : stringify F (.array entries) ++ rest =
        91 :: (commas (entries.map (stringify F)) ++ 93 :: rest) := by
      simp [stringify,stringifyAll_eq]
    have hlength : (commas (entries.map (stringify F))).length + 1 < n := by
      simpa [stringify,stringifyAll_eq] using hn
    have hentries : parseSequence 93 (parseValue F n) n
        (commas (entries.map (stringify F)) ++ 93 :: rest) =
          some (entries.map (reread),rest) := by
      refine parseSequence_commas (by decide) rfl (fun e he sep rest hsep => ?_)
        (fun e _ => ?_) ?_
      · have hle := length_le_commas (List.mem_map_of_mem (f := stringify F) he)
        obtain ⟨n,rfl⟩ := Nat.exists_eq_add_one_of_ne_zero (show n ≠ 0 by omega)
        exact ih e he (by omega) (stops_closed (by omega))
      · obtain ⟨u,t,ht,hspace,hclose,_⟩ := stringify_start (F := F) e
        exact ⟨u,t,ht,hspace,hclose⟩
      · have hle : (entries.map (stringify F)).length ≤ _ := card_le_commas fun t ht => by
          obtain ⟨e,_,rfl⟩ := List.mem_map.mp ht
          obtain ⟨u,t,ht,_⟩ := stringify_start (F := F) e
          rw [ht]
          exact List.cons_ne_nil u t
        rw [List.length_map] at hle
        omega
    rw [htext,parseValue,skipSpace_cons (u := 91) rfl]
    simp only [hentries,Option.map_some,reread,rereadAll_eq]
  | @object members hkeys _ _ ih =>
    let text (m : Units × Json ν) : Units := quoted m.1 ++ 58 :: stringify F m.2
    have htext : stringify F (.object members) ++ rest =
        123 :: (commas (members.map text) ++ 125 :: rest) := by
      simp [stringify,stringifyMembers_eq,text]
    have hlength : (commas (members.map text)).length + 1 < n := by
      simpa [stringify,stringifyMembers_eq,text] using hn
    have hmembers : parseSequence 125 (parseMember (parseValue F n)) n
        (commas (members.map text) ++ 125 :: rest) =
          some (members.map fun m => (m.1,reread m.2),rest) := by
      refine parseSequence_commas (by decide) rfl (fun m hm sep rest hsep => ?_)
        (fun m _ => ⟨34,_,rfl,rfl,by decide⟩) ?_
      · have hle := length_le_commas (List.mem_map_of_mem (f := text) hm)
        have hvalue : (stringify F m.2).length < (text m).length := by
          simp only [text,List.length_append,List.length_cons]
          omega
        obtain ⟨n,rfl⟩ := Nat.exists_eq_add_one_of_ne_zero (show n ≠ 0 by omega)
        exact parseMember_text (fun rest hrest => ih m hm (by omega) hrest)
          (stops_closed (by omega))
      · have hle : (members.map text).length ≤ _ := card_le_commas fun t ht => by
          obtain ⟨m,_,rfl⟩ := List.mem_map.mp ht
          exact List.cons_ne_nil _ _
        rw [List.length_map] at hle
        omega
    have hordered : toObject (members.map fun m => (m.1,reread m.2)) =
        members.map fun m => (m.1,reread m.2) := by
      refine toObject_ordered ?_
      rw [List.map_map]
      exact hkeys
    rw [htext,parseValue,skipSpace_cons (u := 123) rfl]
    simp only [hmembers,Option.map_some,hordered,reread,rereadMembers_eq]

theorem parse_stringify (h : Proper v) : parse F (stringify F v) = some (reread v) := by
  have hread : parseValue F ((stringify F v).length + 1) (stringify F v ++ []) =
      some (reread v,[]) := parseValue_stringify h le_rfl fun _ hu => by cases hu
  rw [List.append_nil] at hread
  unfold parse
  rw [hread]
  rfl

theorem stringify_reread (h : Proper v) : stringify F (reread v) = stringify F v := by
  induction h with
  | null | bool | string => rfl
  | number value => cases value <;> rfl
  | @array entries _ ih =>
    have hentries : entries.map (stringify F ∘ reread) = entries.map (stringify F) :=
      List.map_congr_left ih
    simp only [reread,stringify,stringifyAll_eq,rereadAll_eq,List.map_map,hentries]
  | @object members _ _ _ ih =>
    simp only [reread,stringify,stringifyMembers_eq,rereadMembers_eq,List.map_map]
    rw [List.map_congr_left fun m hm => show _ = quoted m.1 ++ 58 :: stringify F m.2 by
      rw [Function.comp_apply,ih m hm]]

theorem Proper.reread (h : Proper v) : Proper (reread v) := by
  induction h with
  | null => exact .null
  | bool value => exact .bool value
  | string units => exact .string units
  | number value =>
    cases value with
    | finite x => exact .number _
    | minusZero => exact .number _
    | infinite => exact .null
  | array _ ih =>
    rw [JsonText.reread,rereadAll_eq]
    refine .array fun v hv => ?_
    obtain ⟨e,he,rfl⟩ := List.mem_map.mp hv
    exact ih e he
  | object keys units _ ih =>
    rw [JsonText.reread,rereadMembers_eq]
    refine .object ?_ (fun m hm => ?_) fun m hm => ?_
    · rw [List.map_map]
      exact keys
    · obtain ⟨e,he,rfl⟩ := List.mem_map.mp hm
      exact units e he
    · obtain ⟨e,he,rfl⟩ := List.mem_map.mp hm
      exact ih e he

def Json.isObject : Json ν → Bool
  | .object _ => true
  | _ => false

/-- The value of a property; no other value has one. -/
def Json.get (key : Units) : Json ν → Option (Json ν)
  | .object members => (members.find? fun m => m.1 = key).map (·.2)
  | _ => none

theorem get_reread (key : Units) (v : Json ν) :
    (JsonText.reread v).get key = (v.get key).map JsonText.reread := by
  cases v with
  | object members =>
    rw [JsonText.reread,rereadMembers_eq]
    simp only [Json.get,List.find?_map,Option.map_map]
    rfl
  | number value => cases value <;> rfl
  | null | bool | string | array => rfl

omit [Zero ν] in
theorem proper_get {key : Units} {w : Json ν} (h : Proper v) (hw : v.get key = some w) :
    Proper w := by
  cases h with
  | object _ _ hmembers =>
    obtain ⟨m,hm,rfl⟩ := Option.map_eq_some_iff.mp hw
    exact hmembers m (List.mem_of_find?_eq_some hm)
  | null | bool | number | string | array => cases hw

end values

end JsonText
