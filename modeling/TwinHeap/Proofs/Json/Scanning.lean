import TwinHeap.Object
import TwinHeap.Json.Token

/-! Where the lexical units of a text stand in it: a scan begins with a mark or with a small number
exactly if the text spells it after some blank space. -/
namespace TwinHeap.Json

/-- Blank space of any length stands before `t`. -/
inductive Blanks : List Char → List Char → Prop
  | none (t : List Char) : Blanks t t
  | more {c : Char} {s t : List Char} : c ∈ [' ', '\t', '\n', '\r'] → Blanks s t → Blanks (c :: s) t

theorem isBlank_iff {c : Char} : isBlank c = true ↔ c ∈ [' ', '\t', '\n', '\r'] := by
  simp [isBlank, or_assoc]

theorem scan_blank {c : Char} (blank : isBlank c = true) (r : List Char) :
    scan (c :: r) = scan r := by
  rw [scan, if_pos blank]

theorem scan_blanks {s t : List Char} (blanks : Blanks s t) : scan s = scan t := by
  induction blanks with
  | none => rfl
  | more blank _ ih => exact (scan_blank (isBlank_iff.2 blank) _).trans ih

theorem scan_token {c : Char} {r rest : List Char} {t : Token} (solid : isBlank c = false)
    (read : readToken c r = some (t, rest)) : scan (c :: r) = t :: scan rest := by
  rw [scan]
  simp only [solid, Bool.false_eq_true, if_false]
  split
  · rename_i none
    rw [read] at none
    cases none
  · rename_i same
    rw [read] at same
    cases same
    rfl

theorem scan_eq_nil_iff {s : List Char} : scan s = [] ↔ Blanks s [] := by
  constructor
  · intro empty
    fun_induction scan s with
    | case1 => exact .none []
    | case2 c r blank ih => exact .more (isBlank_iff.1 blank) (ih empty)
    | case3 => cases empty
    | case4 => cases empty
  · intro blanks
    exact (scan_blanks blanks).trans (by rw [scan])

/-- The first unit begins after the blank space, and the scan goes on behind it. -/
theorem scan_eq_cons {s : List Char} {t : Token} {ts : List Token} (scanned : scan s = t :: ts)
    (sound : t ≠ .bad) :
    ∃ c r rest, Blanks s (c :: r) ∧ readToken c r = some (t, rest) ∧ scan rest = ts := by
  fun_induction scan s with
  | case1 => cases scanned
  | case2 c r blank ih =>
      obtain ⟨d, u, rest, blanks, read⟩ := ih scanned
      exact ⟨d, u, rest, .more (isBlank_iff.1 blank) blanks, read⟩
  | case3 c r _ _ =>
      cases scanned
      exact (sound rfl).elim
  | case4 c r _ u rest read ih =>
      cases scanned
      exact ⟨c, r, rest, .none _, read, rfl⟩

/-- What a unit can be, and how it begins. -/
theorem readToken_eq_some {c : Char} {r rest : List Char} {t : Token}
    (read : readToken c r = some (t, rest)) :
    (punctuation? c = some t ∧ rest = r) ∨
      (c = '"' ∧ ∃ name, readText r = some (name, rest) ∧ t = .text name) ∨
      (c = '-' ∧ readNumber true r = some (t, rest)) ∨
      (punctuation? c = none ∧ readNumber false (c :: r) = some (t, rest)) ∨
      t = .null ∨ ∃ b, t = .bool b := by
  unfold readToken at read
  split at read
  · rename_i mark
    cases read
    exact .inl ⟨mark, rfl⟩
  · rename_i mark
    split at read
    · rename_i quote
      obtain ⟨⟨name, after⟩, text, same⟩ := Option.map_eq_some_iff.1 read
      cases same
      exact .inr (.inl ⟨quote, name, text, rfl⟩)
    · split at read
      · rename_i minus
        exact .inr (.inr (.inl ⟨minus, read⟩))
      · split at read
        · exact .inr (.inr (.inr (.inl ⟨mark, read⟩)))
        · split at read
          · rename_i word
            obtain ⟨after, -, same⟩ := Option.map_eq_some_iff.1 read
            cases same
            unfold word? at word
            split at word
            · cases word
              exact .inr (.inr (.inr (.inr (.inl rfl))))
            · split at word
              · cases word
                exact .inr (.inr (.inr (.inr (.inr ⟨_, rfl⟩))))
              · split at word
                · cases word
                  exact .inr (.inr (.inr (.inr (.inr ⟨_, rfl⟩))))
                · cases word
          · cases read

theorem readNumber_eq_some {negative : Bool} {s rest : List Char} {t : Token}
    (read : readNumber negative s = some (t, rest)) :
    ∃ l, readLiteral s = some (l, rest) ∧ t = .number (l.integer? negative) := by
  unfold readNumber at read
  split at read
  · cases read
  · rename_i l after literal
    split at read
    · cases read
    · cases read
      exact ⟨l, literal, rfl⟩

def marks : List (Char × Token) :=
  [('\x7b', .openBrace), ('\x7d', .closeBrace), ('[', .openBracket), (']', .closeBracket),
    (',', .comma), (':', .colon)]

theorem punctuation?_eq_some {c : Char} {t : Token} :
    punctuation? c = some t ↔ (c, t) ∈ marks := by
  simp only [marks, List.mem_cons, Prod.mk.injEq, List.not_mem_nil, or_false]
  constructor
  · intro mark
    unfold punctuation? at mark
    repeat' split at mark
    all_goals simp_all
  · rintro (⟨rfl, rfl⟩ | ⟨rfl, rfl⟩ | ⟨rfl, rfl⟩ | ⟨rfl, rfl⟩ | ⟨rfl, rfl⟩ | ⟨rfl, rfl⟩) <;> rfl

theorem punctuation?_inj {c d : Char} {t : Token} (mark : punctuation? c = some t)
    (same : punctuation? d = some t) : c = d := by
  have distinct : ∀ p ∈ marks, ∀ q ∈ marks, p.2 = q.2 → p.1 = q.1 := by decide
  exact distinct _ (punctuation?_eq_some.1 mark) _ (punctuation?_eq_some.1 same) rfl

theorem solid_of_mark {c : Char} {t : Token} (mark : punctuation? c = some t) :
    isBlank c = false := by
  have solid : ∀ p ∈ marks, isBlank p.1 = false := by decide
  exact solid _ (punctuation?_eq_some.1 mark)

/-- A mark is read as no other kind of unit. -/
theorem readToken_eq_mark {c d : Char} {r rest : List Char} {t : Token}
    (mark : punctuation? c = some t) (read : readToken d r = some (t, rest)) :
    d = c ∧ rest = r := by
  have kind : (∀ name, t ≠ .text name) ∧ (∀ n, t ≠ .number n) ∧ t ≠ .null ∧ ∀ b, t ≠ .bool b := by
    have member := punctuation?_eq_some.1 mark
    simp only [marks, List.mem_cons, Prod.mk.injEq, List.not_mem_nil, or_false] at member
    rcases member with ⟨-, rfl⟩ | ⟨-, rfl⟩ | ⟨-, rfl⟩ | ⟨-, rfl⟩ | ⟨-, rfl⟩ | ⟨-, rfl⟩ <;>
      exact ⟨nofun, nofun, nofun, nofun⟩
  obtain ⟨noText, noNumber, noNull, noBool⟩ := kind
  rcases readToken_eq_some read with ⟨same, rfl⟩ | ⟨-, name, -, text⟩ | ⟨-, number⟩ |
    ⟨-, number⟩ | null | ⟨b, bool⟩
  · exact ⟨punctuation?_inj same mark, rfl⟩
  · exact (noText name text).elim
  · obtain ⟨l, -, same⟩ := readNumber_eq_some number
    exact (noNumber _ same).elim
  · obtain ⟨l, -, same⟩ := readNumber_eq_some number
    exact (noNumber _ same).elim
  · exact (noNull null).elim
  · exact (noBool b bool).elim

/-- A scan begins with a mark exactly if the text does, blank space apart. -/
theorem scan_mark_iff {c : Char} {t : Token} (mark : punctuation? c = some t) {s : List Char}
    {ts : List Token} : scan s = t :: ts ↔ ∃ r, Blanks s (c :: r) ∧ scan r = ts := by
  constructor
  · intro scanned
    have sound : t ≠ .bad := by
      rintro rfl
      exact absurd (punctuation?_eq_some.1 mark) (by simp [marks])
    obtain ⟨d, r, rest, blanks, read, later⟩ := scan_eq_cons scanned sound
    obtain ⟨rfl, rfl⟩ := readToken_eq_mark mark read
    exact ⟨rest, blanks, later⟩
  · rintro ⟨r, blanks, rfl⟩
    rw [scan_blanks blanks]
    exact scan_token (solid_of_mark mark) (by simp only [readToken, mark])

theorem scan_mark {c : Char} {t : Token} (mark : punctuation? c = some t) (rest : List Char) :
    scan (c :: rest) = t :: scan rest :=
  (scan_mark_iff mark).2 ⟨rest, .none _, rfl⟩

end TwinHeap.Json
