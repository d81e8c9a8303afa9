import Yurucommu.IpClassifier
import Yurucommu.IpTextForms

/-!
The parser of addresses reads just the texts of the grammar.
-/

set_option autoImplicit false

namespace Yurucommu.IpClassifier

open ActorIdentity (Platform parseIPv4)
open IpText (hexValue HexGroup Groups Hextets NoneOr NoDouble Octet Quad)
open Whatwg (Text)

section groups

/-- No capital letter that is a digit. -/
def NoCapital (t : Text) : Prop := ∀ c ∈ t, IpText.isHex c = true → isLowerHex c = true

theorem isHex_of_isLowerHex {c : Char} (h : isLowerHex c = true) : IpText.isHex c = true := by
  simp only [isLowerHex] at h
  simp [IpText.isHex,h]

theorem parseGroup_eq_some {t : Text} {n : Nat} (ht : NoCapital t) :
    parseGroup t = some n ↔ HexGroup t n := by
  rw [parseGroup,Option.ite_none_right_eq_some,HexGroup]
  constructor
  · rintro ⟨⟨h₁,h₂,h₃⟩,h⟩
    refine ⟨h₁,h₂,fun c hc => isHex_of_isLowerHex (List.all_eq_true.1 h₃ c hc),?_⟩
    exact (Option.some.inj h).symm
  · rintro ⟨h₁,h₂,h₃,rfl⟩
    exact ⟨⟨h₁,h₂,List.all_eq_true.2 fun c hc => ht c hc (h₃ c hc)⟩,rfl⟩

theorem mapM_parseGroup : ∀ {ps : List Text} {ns : List Nat}, ps ≠ [] → (∀ p ∈ ps, ':' ∉ p) →
    (∀ p ∈ ps, NoCapital p) →
      (ps.mapM parseGroup = some ns ↔ Groups false ([':'].intercalate ps) ns)
  | [p], ns, _, hcolon, hcap => by
    have hsingle : [':'].intercalate [p] = p := by simp
    rw [hsingle,List.mapM_cons,List.mapM_nil]
    constructor
    · intro h
      obtain ⟨n,hn,h⟩ := Option.bind_eq_some_iff.1 h
      obtain rfl : [n] = ns := by simpa using h
      exact .last ((parseGroup_eq_some (hcap p (by simp))).1 hn)
    · intro h
      obtain ⟨n,hn,rfl⟩ := h.of_colon_free (hcolon p (by simp))
      rw [(parseGroup_eq_some (hcap p (by simp))).2 hn]
      rfl
  | p :: p' :: ps, ns, _, hcolon, hcap => by
    have ih := fun ms => @mapM_parseGroup (p' :: ps) ms (by simp)
      (fun q hq => hcolon q (by simp [hq])) (fun q hq => hcap q (by simp [hq]))
    have hp := fun n => parseGroup_eq_some (n := n) (hcap p (by simp))
    have hcons : [':'].intercalate (p :: p' :: ps) = p ++ ':' :: [':'].intercalate (p' :: ps) := by
      simp
    rw [hcons,IpText.groups_cons_iff (hcolon p (by simp)),List.mapM_cons]
    constructor
    · intro h
      obtain ⟨n,hn,h⟩ := Option.bind_eq_some_iff.1 h
      obtain ⟨ms,hms,h⟩ := Option.bind_eq_some_iff.1 h
      exact ⟨n,ms,(hp n).1 hn,(ih ms).1 hms,(Option.some.inj h).symm⟩
    · rintro ⟨n,ms,hn,hms,rfl⟩
      rw [(hp n).2 hn,(ih ms).2 hms]
      rfl

theorem mem_intercalate {ps : List Text} {p : Text} (h : p ∈ ps) {c : Char} (hc : c ∈ p) :
    c ∈ [':'].intercalate ps := by
  induction ps with
  | nil => simp at h
  | cons q qs ih =>
    cases qs with
    | nil =>
      rw [List.mem_singleton.1 h] at hc
      simpa using hc
    | cons r rs =>
      have hcons : [':'].intercalate (q :: r :: rs) = q ++ ':' :: [':'].intercalate (r :: rs) := by
        simp
      rw [hcons]
      rcases List.mem_cons.1 h with rfl | h
      · simp [hc]
      · simp [ih h]

theorem parseGroups_eq_some {t : Text} {ns : List Nat} (ht : NoCapital t) :
    parseGroups t = some ns ↔ NoneOr (Groups false) t ns := by
  rw [parseGroups,NoneOr]
  by_cases hnil : t = []
  · subst hnil
    simp only [if_true,Option.some.injEq,true_and]
    exact ⟨fun h => .inl h.symm,fun h => (h.resolve_right fun hg => hg.ne_nil rfl).symm⟩
  · rw [if_neg hnil,mapM_parseGroup (List.splitOn_ne_nil ':' t) ?_ ?_,List.intercalate_splitOn]
    · simp [hnil]
    · intro p hp hcolon
      have := Whatwg.splitOnP_avoids t p hp ':' hcolon
      simp at this
    · intro p hp c hc
      refine ht c ?_
      have htext : [':'].intercalate (t.splitOn ':') = t := List.intercalate_splitOn ':'
      rw [← htext]
      exact mem_intercalate hp hc

end groups

section doubles

theorem noDouble_of_short {t : Text} (h : ∀ c d u, t = c :: d :: u → False) : NoDouble t := by
  cases t with
  | nil => exact .nil
  | cons c t =>
    cases t with
    | nil => exact .singleton c
    | cons d t => exact (h c d t rfl).elim

theorem indexOfDouble_eq_none {t : Text} : indexOfDouble t = none ↔ NoDouble t := by
  fun_induction indexOfDouble t with
  | case1 c d t h =>
    rw [NoDouble,List.isChain_cons_cons]
    simp [h]
  | case2 c d t h ih =>
    rw [NoDouble,List.isChain_cons_cons,Option.map_eq_none_iff,ih]
    exact ⟨fun hd => ⟨h,hd⟩,fun hd => hd.2⟩
  | case3 t h =>
    exact ⟨fun _ => noDouble_of_short h,fun _ => rfl⟩

theorem indexOfDouble_append : ∀ {t : Text} (u : Text), NoDouble (t ++ [':']) →
    indexOfDouble (t ++ ':' :: ':' :: u) = some t.length
  | [], u, _ => by simp [indexOfDouble]
  | [c], u, h => by
    rw [NoDouble,List.singleton_append,List.isChain_cons_cons] at h
    have hc : c ≠ ':' := fun hc => h.1 ⟨hc,rfl⟩
    simp [indexOfDouble,hc]
  | c :: d :: t, u, h => by
    rw [NoDouble,List.cons_append,List.cons_append,List.isChain_cons_cons] at h
    have ih := indexOfDouble_append (t := d :: t) u h.2
    rw [List.cons_append] at ih
    rw [List.cons_append,List.cons_append,indexOfDouble,if_neg h.1,ih]
    rfl

theorem lastIndexOfDouble_eq_none {t : Text} : lastIndexOfDouble t = none ↔ NoDouble t := by
  fun_induction lastIndexOfDouble t with
  | case1 c d t i hi ih =>
    rw [NoDouble,List.isChain_cons_cons]
    refine ⟨fun h => by contradiction,fun hd => ?_⟩
    have hnone := ih.2 hd.2
    rw [hi] at hnone
    contradiction
  | case2 c d t hi h ih =>
    rw [NoDouble,List.isChain_cons_cons]
    simp [h]
  | case3 c d t hi h ih =>
    rw [NoDouble,List.isChain_cons_cons]
    exact ⟨fun _ => ⟨h,ih.1 hi⟩,fun _ => rfl⟩
  | case4 t h =>
    exact ⟨fun _ => noDouble_of_short h,fun _ => rfl⟩

theorem lastIndexOfDouble_append : ∀ (t : Text) {u : Text}, NoDouble (':' :: u) →
    lastIndexOfDouble (t ++ ':' :: ':' :: u) = some t.length
  | [], u, h => by
    rw [List.nil_append,lastIndexOfDouble,lastIndexOfDouble_eq_none.2 h]
    simp
  | [c], u, h => by
    have ih := lastIndexOfDouble_append [] h
    rw [List.nil_append] at ih
    rw [List.singleton_append,lastIndexOfDouble,ih]
    rfl
  | c :: d :: t, u, h => by
    have ih := lastIndexOfDouble_append (d :: t) h
    rw [List.cons_append] at ih
    rw [List.cons_append,List.cons_append,lastIndexOfDouble,ih]
    rfl

theorem indexOfDouble_eq_some : ∀ {t : Text} {i : Nat}, indexOfDouble t = some i →
    t = t.take i ++ ':' :: ':' :: t.drop (i + 2) := by
  intro t
  fun_induction indexOfDouble t with
  | case1 c d t h =>
    intro i hi
    obtain rfl := Option.some.inj hi
    simp [h]
  | case2 c d t h ih =>
    intro i hi
    obtain ⟨j,hj,rfl⟩ := Option.map_eq_some_iff.1 hi
    exact congrArg (c :: ·) (ih hj)
  | case3 t h =>
    intro i hi
    contradiction

end doubles

section forms

theorem NoCapital.of_subset {t u : Text} (h : NoCapital t) (hu : ∀ c ∈ u, c ∈ t) : NoCapital u :=
  fun c hc => h c (hu c hc)

theorem expandGroups_eq_some {s : Text} {groups : List Nat} (hs : NoCapital s) :
    expandGroups s = some groups ↔ Hextets false s groups := by
  constructor
  · intro h
    simp only [expandGroups] at h
    rw [Option.ite_none_left_eq_some] at h
    obtain ⟨_,h⟩ := h
    obtain ⟨gs,hgs,hlen⟩ := Option.bind_eq_some_iff.1 h
    rw [Option.ite_none_right_eq_some,Option.some.injEq] at hlen
    obtain ⟨hlen,rfl⟩ := hlen
    cases hindex : indexOfDouble s with
    | none =>
      rw [hindex] at hgs
      obtain ⟨_,rfl⟩ | hg := (parseGroups_eq_some hs).1 hgs
      · simp at hlen
      · exact .full hg hlen
    | some i =>
      rw [hindex] at hgs
      obtain ⟨head,hhead,hgs⟩ := Option.bind_eq_some_iff.1 hgs
      obtain ⟨tail,htail,hgs⟩ := Option.bind_eq_some_iff.1 hgs
      rw [Option.ite_none_left_eq_some,Option.some.injEq] at hgs
      obtain ⟨hle,rfl⟩ := hgs
      have hhead := (parseGroups_eq_some (hs.of_subset fun c => List.mem_of_mem_take)).1 hhead
      have htail := (parseGroups_eq_some (hs.of_subset fun c => List.mem_of_mem_drop)).1 htail
      rw [indexOfDouble_eq_some hindex]
      exact .compressed hhead htail (Nat.not_le.1 hle)
  · intro h
    cases h with
    | full hg hlen =>
      have hnone : NoDouble s := by
        have hd := hg.noDouble
        rw [← List.cons_append] at hd
        exact IpText.NoDouble.right (t := [':']) hd.left
      simp only [expandGroups]
      rw [indexOfDouble_eq_none.2 hnone,lastIndexOfDouble_eq_none.2 hnone]
      simp [(parseGroups_eq_some hs).2 (.inr hg),hlen]
    | @compressed t u ms ns ht hu hlen =>
      have htd : NoDouble (t ++ [':']) := by
        obtain ⟨rfl,-⟩ | ht := ht
        · exact .singleton _
        · exact IpText.NoDouble.right (t := [':']) ht.noDouble
      have hud : NoDouble (':' :: u) := by
        obtain ⟨rfl,-⟩ | hu := hu
        · exact .singleton _
        · have hd := hu.noDouble
          rw [← List.cons_append] at hd
          exact hd.left
      have htcap : NoCapital t := hs.of_subset fun c hc => by simp [hc]
      have hucap : NoCapital u := hs.of_subset fun c hc => by simp [hc]
      have htake : (t ++ ':' :: ':' :: u).take t.length = t := by simp
      have hdrop : (t ++ ':' :: ':' :: u).drop (t.length + 2) = u := by
        rw [List.drop_append]
        simp
      simp only [expandGroups]
      rw [indexOfDouble_append u htd,lastIndexOfDouble_append t hud]
      simp only [ne_eq,not_true,if_false]
      rw [htake,hdrop,(parseGroups_eq_some htcap).2 ht,(parseGroups_eq_some hucap).2 hu]
      simp only [Option.bind_some]
      rw [if_neg (Nat.not_le.2 hlen),Option.bind_some,if_pos]
      simp only [List.length_append,List.length_replicate]
      omega

end forms

section quads

theorem parseIPv4_of_quad {t : Text} {a b c d : Nat} (h : Quad t a b c d) :
    parseIPv4 t = some [a,b,c,d] := by
  obtain @⟨t,u,v,w,_,_,_,_,ha,hb,hc,hd⟩ := h
  have hsplit : (t ++ '.' :: (u ++ '.' :: (v ++ '.' :: w))).splitOn '.' = [t,u,v,w] := by
    rw [List.splitOn_append_cons_self_of_not_mem ha.dot_free,
      List.splitOn_append_cons_self_of_not_mem hb.dot_free,
      List.splitOn_append_cons_self_of_not_mem hc.dot_free,
      List.splitOn_eq_singleton hd.dot_free]
  have hpart : ∀ {t : Text} {n : Nat}, Octet t n → (decide (1 ≤ t.length) && decide (t.length ≤ 3) &&
      t.all Char.isDigit) = true := by
    intro t n h
    simpa [h.1,h.2.1] using h.2.2.1
  obtain ⟨-,-,-,hav,hale⟩ := id ha
  obtain ⟨-,-,-,hbv,hble⟩ := id hb
  obtain ⟨-,-,-,hcv,hcle⟩ := id hc
  obtain ⟨-,-,-,hdv,hdle⟩ := id hd
  rw [parseIPv4,hsplit]
  simp only [List.length_cons,List.length_nil,List.all_cons,List.all_nil,hpart ha,hpart hb,hpart hc,
    hpart hd,List.map_cons,List.map_nil,← hav,← hbv,← hcv,← hdv]
  simp [Nat.not_lt.2 hale,Nat.not_lt.2 hble,Nat.not_lt.2 hcle,Nat.not_lt.2 hdle]

theorem quad_of_parseIPv4 {t : Text} {ns : List Nat} (h : parseIPv4 t = some ns) :
    ∃ a b c d, ns = [a,b,c,d] ∧ Quad t a b c d := by
  simp only [parseIPv4] at h
  rw [Option.ite_none_right_eq_some,Option.ite_none_left_eq_some] at h
  obtain ⟨hparts,hle,h⟩ := h
  have htext : ['.'].intercalate (t.splitOn '.') = t := List.intercalate_splitOn '.'
  generalize t.splitOn '.' = parts at hparts hle h htext
  simp only [Bool.and_eq_true,decide_eq_true_eq,List.all_eq_true] at hparts
  obtain ⟨hlen,hall⟩ := hparts
  match parts, hlen with
  | [p,q,r,w], _ =>
    have hoctet : ∀ part ∈ [p,q,r,w], Octet part (Nat.ofDigitChars 10 part 0) := by
      intro part hpart
      obtain ⟨⟨h₁,h₂⟩,h₃⟩ := hall part hpart
      refine ⟨h₁,h₂,h₃,rfl,?_⟩
      by_contra hbig
      refine hle (List.any_eq_true.2 ⟨_,List.mem_map.2 ⟨part,hpart,rfl⟩,?_⟩)
      simpa using hbig
    refine ⟨_,_,_,_,(Option.some.inj h).symm,?_⟩
    have htext : t = p ++ '.' :: (q ++ '.' :: (r ++ '.' :: w)) := by simpa using htext.symm
    rw [htext]
    exact .intro (hoctet p (by simp)) (hoctet q (by simp)) (hoctet r (by simp))
      (hoctet w (by simp))

theorem split_at_colon {y m : Text} (hm : ':' ∉ m) :
    (y ++ ':' :: m).rdropWhile (· ≠ ':') = y ++ [':'] ∧
      (y ++ ':' :: m).rtakeWhile (· ≠ ':') = m := by
  have hall : ∀ c ∈ m.reverse, decide (c ≠ ':') = true := by
    intro c hc
    rw [decide_eq_true_eq]
    rintro rfl
    exact hm (List.mem_reverse.1 hc)
  have hreverse : (y ++ ':' :: m).reverse = m.reverse ++ ':' :: y.reverse := by simp
  rw [List.rdropWhile,List.rtakeWhile,hreverse,List.dropWhile_append_of_pos hall,
    List.takeWhile_append_of_pos hall]
  simp

theorem exists_colon {t : Text} (h : t.rdropWhile (· ≠ ':') ≠ []) :
    ∃ y, t = y ++ ':' :: t.rtakeWhile (· ≠ ':') ∧ t.rdropWhile (· ≠ ':') = y ++ [':'] := by
  have hlast := List.rdropWhile_last_not _ _ h
  have hsplit := List.dropLast_append_getLast h
  have hcolon : (t.rdropWhile (· ≠ ':')).getLast h = ':' := by simpa using hlast
  rw [hcolon] at hsplit
  refine ⟨(t.rdropWhile (· ≠ ':')).dropLast,?_,hsplit.symm⟩
  conv_lhs => rw [← List.rdropWhile_append_rtakeWhile (p := fun c => decide (c ≠ ':')) (l := t)]
  rw [← hsplit]
  simp

theorem digitChar_lt {m : Nat} (h : m < 16) :
    isLowerHex (Nat.digitChar m) = true ∧ IpText.hexDigit (Nat.digitChar m) = m := by
  have hall : ∀ m : Fin 16, isLowerHex (Nat.digitChar m) = true ∧
      IpText.hexDigit (Nat.digitChar m) = m := by decide
  exact hall ⟨m,h⟩

theorem hexValue_append (t : Text) (c : Char) :
    hexValue (t ++ [c]) = hexValue t * 16 + IpText.hexDigit c := by
  simp [hexValue,IpText.ofParts]

theorem toDigits_sixteen (n : Nat) : (∀ c ∈ Nat.toDigits 16 n, isLowerHex c = true) ∧
    hexValue (Nat.toDigits 16 n) = n := by
  induction n using Nat.strongRecOn with
  | ind n ih =>
    rw [Nat.toDigits_eq_if (by decide)]
    split
    next hlt =>
      obtain ⟨hhex,hvalue⟩ := digitChar_lt hlt
      exact ⟨by simpa using hhex,by simpa [hexValue,IpText.ofParts] using hvalue⟩
    next hge =>
      obtain ⟨hhex,hvalue⟩ := digitChar_lt (Nat.mod_lt n (by decide : 0 < 16))
      obtain ⟨hchars,hdiv⟩ := ih (n / 16) (by omega)
      refine ⟨fun c hc => ?_,?_⟩
      · rcases List.mem_append.1 hc with hc | hc
        · exact hchars c hc
        · rw [List.mem_singleton.1 hc]
          exact hhex
      · rw [hexValue_append,hdiv,hvalue]
        omega

theorem hexGroup_toDigits {n : Nat} (h : n < 65536) : HexGroup (Nat.toDigits 16 n) n := by
  obtain ⟨hchars,hvalue⟩ := toDigits_sixteen n
  refine ⟨Nat.length_toDigits_pos,?_,fun c hc => isHex_of_isLowerHex (hchars c hc),hvalue.symm⟩
  exact (Nat.length_toDigits_le_iff (by decide) (by decide)).2 h

def tailGroups (a b c d : Nat) : Text :=
  Nat.toDigits 16 (a * 256 + b) ++ ':' :: Nat.toDigits 16 (c * 256 + d)

theorem groups_tailGroups {t : Text} {a b c d : Nat} (h : Quad t a b c d) :
    Groups false (tailGroups a b c d) [a * 256 + b,c * 256 + d] := by
  obtain ⟨ha,hb,hc,hd⟩ := h.bounds
  exact .cons (hexGroup_toDigits (by omega)) (.last (hexGroup_toDigits (by omega)))

theorem quad_unique {t : Text} {a b c d a' b' c' d' : Nat} (h : Quad t a b c d)
    (k : Quad t a' b' c' d') : a = a' ∧ b = b' ∧ c = c' ∧ d = d' := by
  have heq := Option.some.inj ((parseIPv4_of_quad h).symm.trans (parseIPv4_of_quad k))
  simpa using heq

theorem groups_unique {q : Bool} {t : Text} {ns ms : List Nat} (h : Groups q t ns)
    (k : Groups q t ms) : ns = ms := by
  induction h generalizing ms with
  | @last q t n hg =>
    cases k with
    | last hk => rw [hg.2.2.2,hk.2.2.2]
    | quad hk => exact absurd hk.dot_mem hg.dot_free
    | cons => exact absurd (by simp) hg.colon_free
  | quad hq =>
    cases k with
    | last hk => exact absurd hq.dot_mem hk.dot_free
    | quad hk =>
      obtain ⟨rfl,rfl,rfl,rfl⟩ := quad_unique hq hk
      rfl
    | cons => exact absurd (by simp) hq.colon_free
  | cons hg _ ih =>
    obtain ⟨n,ns,hk,hrest,rfl⟩ := (IpText.groups_cons_iff hg.colon_free).1 k
    rw [hg.2.2.2,hk.2.2.2,ih hrest]

theorem foldQuad_eq_some {s s' : Text} : foldQuad s = some s' ↔
    ∃ y m a b c d, s = y ++ ':' :: m ∧ ':' ∉ m ∧ (∀ x ∈ y, isLineTerminator x = false) ∧
      Quad m a b c d ∧ s' = y ++ ':' :: tailGroups a b c d := by
  constructor
  · intro h
    simp only [foldQuad] at h
    rw [Option.ite_none_left_eq_some,not_or] at h
    obtain ⟨⟨hne,hline⟩,h⟩ := h
    obtain ⟨y,hy,hfront⟩ := exists_colon hne
    split at h
    next a b c d hparse =>
      obtain ⟨a',b',c',d',heq,hquad⟩ := quad_of_parseIPv4 hparse
      simp only [List.cons.injEq,and_true] at heq
      obtain ⟨rfl,rfl,rfl,rfl⟩ := heq
      refine ⟨y,_,a,b,c,d,hy,hquad.colon_free,fun x hx => ?_,hquad,?_⟩
      · by_contra hterm
        refine hline (List.any_eq_true.2 ⟨x,?_,by simpa using hterm⟩)
        rw [hfront]
        simp [hx]
      · rw [← Option.some.inj h,hfront,tailGroups]
        simp
    next => contradiction
  · rintro ⟨y,m,a,b,c,d,rfl,hm,hline,hquad,rfl⟩
    obtain ⟨hfront,htail⟩ := split_at_colon (y := y) hm
    have hany : ¬ (y ++ [':'] = [] ∨ (y ++ [':']).any isLineTerminator = true) := by
      simp only [List.append_eq_nil_iff,List.any_append,List.any_eq_true,Bool.or_eq_true]
      rintro (h | ⟨x,hx,hterm⟩ | ⟨x,hx,hterm⟩)
      · simp at h
      · rw [hline x hx] at hterm
        contradiction
      · rw [List.mem_singleton.1 hx] at hterm
        exact absurd hterm (by decide)
    simp only [foldQuad]
    rw [hfront,htail,if_neg hany,parseIPv4_of_quad hquad]
    simp [tailGroups]

end quads

section core

theorem noDouble_colon {q : Bool} {t : Text} {ns : List Nat} (h : Groups q t ns) :
    NoDouble (':' :: t) := by
  have hd := h.noDouble
  rw [← List.cons_append] at hd
  exact hd.left

theorem isLineTerminator_of_isFormChar {c : Char} (h : IpText.isFormChar c = true) :
    isLineTerminator c = false := by
  by_contra hterm
  have hmem : c.toNat ∈ [0x0a,0x0d,0x2028,0x2029] := by
    rw [Bool.not_eq_false,isLineTerminator,List.contains_iff_mem] at hterm
    exact hterm
  have hchar : c = Char.ofNat c.toNat := by simp
  simp only [List.mem_cons,List.not_mem_nil,or_false] at hmem
  rcases hmem with heq | heq | heq | heq <;>
    (rw [hchar,heq] at h; exact absurd h (by decide))

theorem noCapital_tailGroups {y : Text} (h : NoCapital y) (a b c d : Nat) :
    NoCapital (y ++ ':' :: tailGroups a b c d) := by
  intro x hx hhex
  simp only [tailGroups,List.mem_append,List.mem_cons] at hx
  rcases hx with hx | rfl | hx | rfl | hx
  · exact h x hx hhex
  · exact absurd hhex (by decide)
  · exact (toDigits_sixteen _).1 x hx
  · exact absurd hhex (by decide)
  · exact (toDigits_sixteen _).1 x hx

theorem expand_eq_some {s : Text} {groups : List Nat} (hs : NoCapital s) :
    (if s = [] then none else if '.' ∈ s then (foldQuad s).bind expandGroups
      else expandGroups s) = some groups ↔ Hextets true s groups := by
  by_cases hnil : s = []
  · subst hnil
    simpa using fun h : Hextets true [] groups => h.ne_nil rfl
  rw [if_neg hnil]
  by_cases hdot : '.' ∈ s
  · rw [if_pos hdot]
    constructor
    · intro h
      obtain ⟨s',hfold,h⟩ := Option.bind_eq_some_iff.1 h
      obtain ⟨y,m,a,b,c,d,rfl,hm,-,hquad,rfl⟩ := foldQuad_eq_some.1 hfold
      have htail := groups_tailGroups hquad
      have hy : NoCapital y := hs.of_subset fun c hc => by simp [hc]
      have hcap := noCapital_tailGroups hy a b c d
      refine IpText.Hextets.replace (noDouble_colon htail) htail.ne_nil (fun ns hns => ?_)
        ((expandGroups_eq_some hcap).1 h)
      rw [groups_unique hns htail]
      exact .quad hquad
    · intro h
      obtain ⟨y,m,a,b,c,d,rfl,hquad⟩ := h.exists_quad hdot
      have hm : Groups true m [a * 256 + b,c * 256 + d] := .quad hquad
      have hy : NoCapital y := hs.of_subset fun c hc => by simp [hc]
      have hcap := noCapital_tailGroups hy a b c d
      have hfold := foldQuad_eq_some.2 ⟨y,m,a,b,c,d,rfl,hquad.colon_free,
        fun x hx => isLineTerminator_of_isFormChar (h.chars x (by simp [hx])),hquad,rfl⟩
      rw [hfold,Option.bind_some,expandGroups_eq_some hcap]
      refine IpText.Hextets.replace (noDouble_colon hm) hm.ne_nil (fun ns hns => ?_) h
      rw [groups_unique hns hm]
      exact groups_tailGroups hquad
  · rw [if_neg hdot,expandGroups_eq_some hs]
    exact ⟨IpText.Hextets.weaken,fun h => h.of_dot_free hdot⟩

end core

end Yurucommu.IpClassifier
