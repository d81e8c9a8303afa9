import Yurucommu.IpText

/-!
How the texts of addresses fall apart: at their colons, at the two colons that stand together, and
at the colon before a quad.
-/

set_option autoImplicit false

namespace Yurucommu.IpText

open Whatwg (Text)

section chars

theorem isHex_ne_colon {c : Char} (h : isHex c = true) : c ≠ ':' := by
  rintro rfl
  exact absurd h (by decide)

theorem isHex_ne_dot {c : Char} (h : isHex c = true) : c ≠ '.' := by
  rintro rfl
  exact absurd h (by decide)

theorem isHex_of_isDigit {c : Char} (h : c.isDigit = true) : isHex c = true := by
  simp [isHex,h]

theorem HexGroup.colon_free {t : Text} {n : Nat} (h : HexGroup t n) : ':' ∉ t := fun hc =>
  isHex_ne_colon (h.2.2.1 ':' hc) rfl

theorem HexGroup.dot_free {t : Text} {n : Nat} (h : HexGroup t n) : '.' ∉ t := fun hc =>
  isHex_ne_dot (h.2.2.1 '.' hc) rfl

theorem HexGroup.ne_nil {t : Text} {n : Nat} (h : HexGroup t n) : t ≠ [] := by
  rintro rfl
  exact absurd h.1 (by simp)

theorem Octet.dot_free {t : Text} {n : Nat} (h : Octet t n) : '.' ∉ t := fun hc =>
  absurd (h.2.2.1 '.' hc) (by decide)

theorem Quad.chars {t : Text} {a b c d : Nat} (h : Quad t a b c d) :
    ∀ x ∈ t, x.isDigit = true ∨ x = '.' := by
  obtain ⟨h₁,h₂,h₃,h₄⟩ := h
  intro x hx
  simp only [List.mem_append,List.mem_cons] at hx
  rcases hx with hx | rfl | hx | rfl | hx | rfl | hx
  · exact .inl (h₁.2.2.1 x hx)
  · exact .inr rfl
  · exact .inl (h₂.2.2.1 x hx)
  · exact .inr rfl
  · exact .inl (h₃.2.2.1 x hx)
  · exact .inr rfl
  · exact .inl (h₄.2.2.1 x hx)

theorem Quad.bounds {t : Text} {a b c d : Nat} (h : Quad t a b c d) :
    a ≤ 255 ∧ b ≤ 255 ∧ c ≤ 255 ∧ d ≤ 255 := by
  obtain ⟨⟨-,-,-,-,ha⟩,⟨-,-,-,-,hb⟩,⟨-,-,-,-,hc⟩,⟨-,-,-,-,hd⟩⟩ := h
  exact ⟨ha,hb,hc,hd⟩

theorem Quad.colon_free {t : Text} {a b c d : Nat} (h : Quad t a b c d) : ':' ∉ t := by
  intro hc
  rcases h.chars ':' hc with h | h
  · exact absurd h (by decide)
  · exact absurd h (by decide)

theorem Quad.dot_mem {t : Text} {a b c d : Nat} (h : Quad t a b c d) : '.' ∈ t := by
  cases h
  simp

theorem Quad.ne_nil {t : Text} {a b c d : Nat} (h : Quad t a b c d) : t ≠ [] := by
  intro hnil
  have := h.dot_mem
  simp [hnil] at this

end chars

section groups

theorem Groups.weaken {q : Bool} {t : Text} {ns : List Nat} (h : Groups false t ns) :
    Groups q t ns := by
  generalize hq : false = p at h
  induction h with
  | last hg => exact .last hg
  | quad => contradiction
  | cons hg _ ih => exact .cons hg (ih hq)

theorem Groups.of_dot_free {q : Bool} {t : Text} {ns : List Nat} (h : Groups q t ns)
    (hdot : '.' ∉ t) : Groups false t ns := by
  induction h with
  | last hg => exact .last hg
  | quad hq => exact absurd hq.dot_mem hdot
  | cons hg _ ih => exact .cons hg (ih fun hc => hdot (by simp [hc]))

theorem Groups.dot_free {t : Text} {ns : List Nat} (h : Groups false t ns) : '.' ∉ t := by
  generalize hq : false = p at h
  induction h with
  | last hg => exact hg.dot_free
  | quad => contradiction
  | cons hg _ ih =>
    intro hc
    rcases List.mem_append.1 hc with hc | hc
    · exact hg.dot_free hc
    · rcases List.mem_cons.1 hc with hc | hc
      · exact absurd hc (by decide)
      · exact ih hq hc

theorem Groups.ne_nil {q : Bool} {t : Text} {ns : List Nat} (h : Groups q t ns) : t ≠ [] := by
  cases h with
  | last hg => exact hg.ne_nil
  | quad hq => exact hq.ne_nil
  | cons => simp

theorem append_colon_inj {t u y z : Text} (ht : ':' ∉ t) (hy : ':' ∉ y)
    (h : t ++ ':' :: u = y ++ ':' :: z) : t = y ∧ u = z := by
  rw [List.append_eq_append_iff] at h
  obtain ⟨w,rfl,hw⟩ | ⟨w,rfl,hw⟩ := h
  · cases w with
    | nil => simpa using hw
    | cons c w =>
      simp only [List.cons_append,List.cons.injEq] at hw
      exact absurd (by simp [← hw.1]) hy
  · cases w with
    | nil => simpa [eq_comm] using hw
    | cons c w =>
      simp only [List.cons_append,List.cons.injEq] at hw
      exact absurd (by simp [← hw.1]) ht

theorem groups_cons_iff {q : Bool} {t u : Text} {ns : List Nat} (ht : ':' ∉ t) :
    Groups q (t ++ ':' :: u) ns ↔ ∃ n ms, HexGroup t n ∧ Groups q u ms ∧ ns = n :: ms := by
  constructor
  · intro h
    generalize htext : t ++ ':' :: u = text at h
    cases h with
    | last hg => exact absurd (by simp [← htext]) hg.colon_free
    | quad hq => exact absurd (by simp [← htext]) hq.colon_free
    | cons hg hrest =>
      obtain ⟨rfl,rfl⟩ := append_colon_inj ht hg.colon_free htext
      exact ⟨_,_,hg,hrest,rfl⟩
  · rintro ⟨n,ms,hg,hrest,rfl⟩
    exact .cons hg hrest

theorem groups_append_iff {q : Bool} {t u : Text} {ns : List Nat} :
    Groups q (t ++ ':' :: u) ns ↔ ∃ ms ls, Groups false t ms ∧ Groups q u ls ∧ ns = ms ++ ls := by
  constructor
  · intro h
    generalize htext : t ++ ':' :: u = text at h
    induction h generalizing t with
    | last hg => exact absurd (by simp [← htext]) hg.colon_free
    | quad hq => exact absurd (by simp [← htext]) hq.colon_free
    | @cons q v w n ns hg hrest ih =>
      by_cases ht : ':' ∈ t
      · obtain ⟨x,y,rfl,hx⟩ := List.eq_append_cons_of_mem ht
        rw [List.append_assoc,List.cons_append] at htext
        obtain ⟨rfl,rfl⟩ := append_colon_inj hx hg.colon_free htext
        obtain ⟨ms,ls,hms,hls,rfl⟩ := ih rfl
        exact ⟨n :: ms,ls,.cons hg hms,hls,rfl⟩
      · obtain ⟨rfl,rfl⟩ := append_colon_inj ht hg.colon_free htext
        exact ⟨[n],ns,.last hg,hrest,rfl⟩
  · rintro ⟨ms,ls,hms,hls,rfl⟩
    generalize hp : false = p at hms
    induction hms with
    | last hg => exact .cons hg hls
    | quad => contradiction
    | cons hg _ ih =>
      rw [List.append_assoc,List.cons_append]
      exact .cons hg (ih hp)

theorem Groups.of_colon_free {t : Text} {ns : List Nat} (h : Groups false t ns)
    (ht : ':' ∉ t) : ∃ n, HexGroup t n ∧ ns = [n] := by
  cases h with
  | last hg => exact ⟨_,hg,rfl⟩
  | cons => exact absurd (by simp) ht

theorem Groups.exists_quad {q : Bool} {t : Text} {ns : List Nat} (h : Groups q t ns)
    (hdot : '.' ∈ t) : ∃ m a b c d, Quad m a b c d ∧
      (t = m ∧ ns.length = 2 ∨ ∃ y, t = y ++ ':' :: m) := by
  induction h with
  | last hg => exact absurd hdot hg.dot_free
  | quad hq => exact ⟨_,_,_,_,_,hq,.inl ⟨rfl,rfl⟩⟩
  | @cons q v w n ns hg _ ih =>
    have hw : '.' ∈ w := by
      rcases List.mem_append.1 hdot with hdot | hdot
      · exact absurd hdot hg.dot_free
      · rcases List.mem_cons.1 hdot with hdot | hdot
        · exact absurd hdot (by decide)
        · exact hdot
    obtain ⟨m,a,b,c,d,hm,⟨rfl,-⟩ | ⟨y,rfl⟩⟩ := ih hw
    · exact ⟨w,a,b,c,d,hm,.inr ⟨v,rfl⟩⟩
    · exact ⟨m,a,b,c,d,hm,.inr ⟨v ++ ':' :: y,by simp⟩⟩

def isFormChar (c : Char) : Bool := isHex c || c = ':' || c = '.'

theorem Groups.chars {q : Bool} {t : Text} {ns : List Nat} (h : Groups q t ns) :
    ∀ c ∈ t, isFormChar c = true := by
  induction h with
  | last hg =>
    intro c hc
    simp [isFormChar,hg.2.2.1 c hc]
  | quad hq =>
    intro c hc
    rcases hq.chars c hc with h | h
    · simp [isFormChar,isHex_of_isDigit h]
    · simp [isFormChar,h]
  | cons hg _ ih =>
    intro c hc
    rcases List.mem_append.1 hc with hc | hc
    · simp [isFormChar,hg.2.2.1 c hc]
    · rcases List.mem_cons.1 hc with rfl | hc
      · rfl
      · exact ih c hc

end groups

section doubles

def NoDouble (t : Text) : Prop := t.IsChain fun c d => ¬ (c = ':' ∧ d = ':')

theorem noDouble_of_colon_free {t : Text} (h : ':' ∉ t) : NoDouble t := by
  induction t with
  | nil => exact .nil
  | cons c t ih =>
    rw [NoDouble,List.isChain_cons]
    refine ⟨fun d hd hcd => h (by simp [hcd.1]),ih fun hc => h (by simp [hc])⟩

theorem noDouble_colon_append {t u : Text} (ht : ':' ∉ t) (hne : t ≠ []) (hu : NoDouble u) :
    NoDouble (':' :: (t ++ u)) := by
  cases t with
  | nil => exact absurd rfl hne
  | cons c t =>
    have hc : c ≠ ':' := fun h => ht (by simp [h])
    rw [NoDouble,List.cons_append,List.isChain_cons_cons,← List.cons_append,List.isChain_append]
    refine ⟨fun h => hc h.2,noDouble_of_colon_free ht,hu,fun x hx y _ hxy => ht ?_⟩
    rw [← hxy.1]
    exact List.mem_of_mem_getLast? hx

theorem Groups.noDouble {q : Bool} {t : Text} {ns : List Nat} (h : Groups q t ns) :
    NoDouble (':' :: (t ++ [':'])) := by
  induction h with
  | last hg => exact noDouble_colon_append hg.colon_free hg.ne_nil (.singleton _)
  | quad hq => exact noDouble_colon_append hq.colon_free hq.ne_nil (.singleton _)
  | cons hg _ ih =>
    rw [List.append_assoc,List.cons_append]
    exact noDouble_colon_append hg.colon_free hg.ne_nil ih

theorem NoDouble.left {t u : Text} (h : NoDouble (t ++ u)) : NoDouble t :=
  List.IsChain.left_of_append h

theorem NoDouble.right {t u : Text} (h : NoDouble (t ++ u)) : NoDouble u :=
  List.IsChain.right_of_append h

theorem not_noDouble (t u : Text) : ¬ NoDouble (t ++ ':' :: ':' :: u) := by
  intro h
  have h := h.right
  rw [NoDouble,List.isChain_cons_cons] at h
  exact h.1 ⟨rfl,rfl⟩

theorem double_align {t u y z : Text} (hz : NoDouble (':' :: z))
    (h : t ++ ':' :: ':' :: u = y ++ ':' :: z) :
    u = z ∧ y = t ++ [':'] ∨ ∃ w, u = w ++ ':' :: z ∧ y = t ++ ':' :: ':' :: w := by
  rw [List.append_eq_append_iff] at h
  obtain ⟨w,rfl,hw⟩ | ⟨w,rfl,hw⟩ := h
  · match w, hw with
    | [], hw =>
      simp only [List.nil_append,List.cons.injEq,true_and] at hw
      rw [← hw] at hz
      exact absurd hz (not_noDouble [] u)
    | [c], hw =>
      simp only [List.cons_append,List.nil_append,List.cons.injEq] at hw
      exact .inl ⟨hw.2.2,by rw [← hw.1]⟩
    | c :: d :: w, hw =>
      simp only [List.cons_append,List.cons.injEq] at hw
      exact .inr ⟨w,hw.2.2,by rw [← hw.1,← hw.2.1]⟩
  · rw [hw] at hz
    exact absurd hz (not_noDouble w u)

end doubles

section tails

theorem Hextets.replace {p q : Bool} {y z z' : Text} (hz : NoDouble (':' :: z)) (hne : z ≠ [])
    (h : ∀ ns, Groups p z ns → Groups q z' ns) {groups : List Nat}
    (hh : Hextets p (y ++ ':' :: z) groups) : Hextets q (y ++ ':' :: z') groups := by
  generalize htext : y ++ ':' :: z = text at hh
  cases hh with
  | full hg hlen =>
    rw [← htext] at hg
    obtain ⟨ms,ls,hms,hls,rfl⟩ := groups_append_iff.1 hg
    exact .full (groups_append_iff.2 ⟨ms,ls,hms,h ls hls,rfl⟩) hlen
  | @compressed t u ms ns ht hu hlen =>
    obtain ⟨rfl,rfl⟩ | ⟨w,rfl,rfl⟩ := double_align hz htext.symm
    · obtain ⟨hnil,-⟩ | hu := hu
      · exact absurd hnil hne
      · simpa using Hextets.compressed ht (.inr (h ns hu)) hlen
    · obtain ⟨hnil,-⟩ | hu := hu
      · simp at hnil
      · obtain ⟨ms',ls,hms,hls,rfl⟩ := groups_append_iff.1 hu
        have hu' := groups_append_iff.2 ⟨ms',ls,hms,h ls hls,rfl⟩
        simpa using Hextets.compressed ht (.inr hu') hlen

theorem Hextets.chars {q : Bool} {t : Text} {groups : List Nat} (h : Hextets q t groups) :
    ∀ c ∈ t, isFormChar c = true := by
  have hnone : ∀ {p : Bool} {t : Text} {ns : List Nat}, NoneOr (Groups p) t ns →
      ∀ c ∈ t, isFormChar c = true := by
    rintro p t ns (⟨rfl,-⟩ | h)
    · simp
    · exact h.chars
  cases h with
  | full hg _ => exact hg.chars
  | compressed ht hu _ =>
    intro c hc
    simp only [List.mem_append,List.mem_cons] at hc
    rcases hc with hc | rfl | rfl | hc
    · exact hnone ht c hc
    · rfl
    · rfl
    · exact hnone hu c hc

theorem Hextets.ne_nil {q : Bool} {t : Text} {groups : List Nat} (h : Hextets q t groups) :
    t ≠ [] := by
  cases h with
  | full hg _ => exact hg.ne_nil
  | compressed => simp

theorem Hextets.colon_mem {q : Bool} {t : Text} {groups : List Nat} (h : Hextets q t groups) :
    ':' ∈ t := by
  cases h with
  | full hg hlen =>
    cases hg with
    | last => simp at hlen
    | quad => simp at hlen
    | cons => simp
  | compressed => simp

theorem Hextets.length_eq {q : Bool} {t : Text} {groups : List Nat} (h : Hextets q t groups) :
    groups.length = 8 := by
  cases h with
  | full _ hlen => exact hlen
  | compressed _ _ hlen =>
    simp only [List.length_append,List.length_replicate]
    omega

theorem Hextets.exists_quad {q : Bool} {t : Text} {groups : List Nat} (h : Hextets q t groups)
    (hdot : '.' ∈ t) : ∃ y m a b c d, t = y ++ ':' :: m ∧ Quad m a b c d := by
  cases h with
  | full hg hlen =>
    obtain ⟨m,a,b,c,d,hm,⟨-,h2⟩ | ⟨y,rfl⟩⟩ := hg.exists_quad hdot
    · omega
    · exact ⟨y,m,a,b,c,d,rfl,hm⟩
  | @compressed t u ms ns ht hu hlen =>
    have ht' : '.' ∉ t := by
      obtain ⟨rfl,-⟩ | ht := ht
      · simp
      · exact ht.dot_free
    have hu' : '.' ∈ u := by simpa [ht'] using hdot
    obtain ⟨rfl,-⟩ | hu := hu
    · simp at hu'
    · obtain ⟨m,a,b,c,d,hm,⟨rfl,-⟩ | ⟨y,rfl⟩⟩ := hu.exists_quad hu'
      · exact ⟨t ++ [':'],u,a,b,c,d,by simp,hm⟩
      · exact ⟨t ++ ':' :: ':' :: y,m,a,b,c,d,by simp,hm⟩

theorem Hextets.weaken {q : Bool} {t : Text} {groups : List Nat} (h : Hextets false t groups) :
    Hextets q t groups := by
  cases h with
  | full hg hlen => exact .full hg.weaken hlen
  | compressed ht hu hlen => exact .compressed ht (hu.imp_right Groups.weaken) hlen

theorem Hextets.of_dot_free {q : Bool} {t : Text} {groups : List Nat} (h : Hextets q t groups)
    (hdot : '.' ∉ t) : Hextets false t groups := by
  cases h with
  | full hg hlen => exact .full (hg.of_dot_free hdot) hlen
  | compressed ht hu hlen =>
    refine .compressed ht (hu.imp_right fun hu => hu.of_dot_free fun hc => hdot ?_) hlen
    simp [hc]

end tails

end Yurucommu.IpText
