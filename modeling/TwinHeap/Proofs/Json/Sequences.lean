import TwinHeap.Proofs.Json.Numerals

/-! Lists and objects in a text, for items of any kind. A scan finds the units of the sequence
exactly where the text spells it, as soon as the same holds of every item. -/
namespace TwinHeap.Json

variable {α : Type}

/-- Items with commas between them, the last one followed by `close`, stand before `rest`. Blank
space may stand before every unit. -/
inductive Items (item : List Char → α → List Char → Prop) (close : Char) :
    List Char → List α → List Char → Prop
  | last {s t rest : List Char} {a : α} : item s a t → Blanks t (close :: rest) →
      Items item close s [a] rest
  | more {s t u rest : List Char} {a : α} {as : List α} : item s a t → Blanks t (',' :: u) →
      Items item close u as rest → Items item close s (a :: as) rest

/-- Any number of items between two marks. -/
inductive Enclosed (item : List Char → α → List Char → Prop) (opening close : Char) :
    List Char → List α → List Char → Prop
  | empty {s t rest : List Char} : Blanks s (opening :: t) → Blanks t (close :: rest) →
      Enclosed item opening close s [] rest
  | items {s t rest : List Char} {as : List α} : Blanks s (opening :: t) →
      Items item close t as rest → Enclosed item opening close s as rest

/-- The units of what follows the first item of a sequence. -/
def moreUnits (units : α → List Token → List Token) (close : Token) :
    List α → List Token → List Token
  | [], rest => close :: rest
  | a :: as, rest => .comma :: units a (moreUnits units close as rest)

def enclosedUnits (units : α → List Token → List Token) (opening close : Token) :
    List α → List Token → List Token
  | [], rest => opening :: close :: rest
  | a :: as, rest => opening :: units a (moreUnits units close as rest)

/-- The text spells an item exactly where a scan finds its units. Of the items that do not fit there
is no spelling, whatever their units. -/
structure Lexed (item : List Char → α → List Char → Prop) (fits : α → Prop)
    (units : α → List Token → List Token) : Prop where
  fitting {s t : List Char} {a : α} : item s a t → fits a
  scanned {s t : List Char} {a : α} : item s a t → Ends t → scan s = units a (scan t)
  spelled {s : List Char} {a : α} {ts : List Token} : fits a → scan s = units a ts →
    ∃ t, item s a t ∧ scan t = ts

variable {item : List Char → α → List Char → Prop} {fits : α → Prop}
  {units : α → List Token → List Token} {close : Char} {closing : Token}

theorem Lexed.scan_items (lexed : Lexed item fits units) (mark : punctuation? close = some closing)
    {s rest : List Char} {as : List α} (items : Items item close s as rest) :
    ∃ a later, as = a :: later ∧ (∀ b ∈ as, fits b) ∧
      scan s = units a (moreUnits units closing later (scan rest)) := by
  induction items with
  | @last s t rest a first closed =>
      refine ⟨_, [], rfl, List.forall_mem_singleton.2 (lexed.fitting first), ?_⟩
      rw [lexed.scanned first (ends_of_blanks closed (ends_of_mark mark rest)), scan_blanks closed, scan_mark mark,
        moreUnits]
  | @more s t u rest a as first comma _ ih =>
      obtain ⟨b, later, rfl, fitting, tail⟩ := ih
      have separator : punctuation? ',' = some .comma := rfl
      refine ⟨a, b :: later, rfl, List.forall_mem_cons.2 ⟨lexed.fitting first, fitting⟩, ?_⟩
      rw [lexed.scanned first (ends_of_blanks comma (ends_of_mark separator u)), scan_blanks comma,
        scan_mark separator, tail, moreUnits]

theorem Lexed.items_of_scan (lexed : Lexed item fits units)
    (mark : punctuation? close = some closing) {s : List Char} {a : α} {as : List α}
    {ts : List Token} (fitting : ∀ b ∈ a :: as, fits b)
    (scanned : scan s = units a (moreUnits units closing as ts)) :
    ∃ rest, Items item close s (a :: as) rest ∧ scan rest = ts := by
  obtain ⟨first, others⟩ := List.forall_mem_cons.1 fitting
  obtain ⟨t, here, tail⟩ := lexed.spelled first scanned
  induction as generalizing s a t with
  | nil =>
      obtain ⟨rest, closed, after⟩ := (scan_mark_iff mark).1 tail
      exact ⟨rest, .last here closed, after⟩
  | cons b as ih =>
      obtain ⟨u, comma, next⟩ := (scan_mark_iff (c := ',') rfl).1 tail
      obtain ⟨second, later⟩ := List.forall_mem_cons.1 others
      obtain ⟨t', there, tail'⟩ := lexed.spelled second next
      obtain ⟨rest, items, after⟩ := ih others next second later t' there tail'
      exact ⟨rest, .more here comma items, after⟩

/-- Sequences are found where they are spelled because their items are. -/
theorem Lexed.enclosed (lexed : Lexed item fits units) {opening : Char} {opened : Token}
    (start : punctuation? opening = some opened) (mark : punctuation? close = some closing) :
    Lexed (Enclosed item opening close) (fun as => ∀ a ∈ as, fits a)
      (enclosedUnits units opened closing) := by
  refine ⟨?_, ?_, ?_⟩
  · intro s t as enclosed
    cases enclosed with
    | empty => exact fun _ member => nomatch member
    | items _ items =>
        obtain ⟨_, _, _, fitting, -⟩ := lexed.scan_items mark items
        exact fitting
  · intro s t as enclosed _
    cases enclosed with
    | empty blanks closed =>
        rw [scan_blanks blanks, scan_mark start, scan_blanks closed, scan_mark mark, enclosedUnits]
    | items blanks items =>
        obtain ⟨a, later, rfl, -, scanned⟩ := lexed.scan_items mark items
        rw [scan_blanks blanks, scan_mark start, scanned, enclosedUnits]
  · intro s as ts fitting scanned
    cases as with
    | nil =>
        obtain ⟨t, blanks, inner⟩ := (scan_mark_iff start).1 scanned
        obtain ⟨rest, closed, after⟩ := (scan_mark_iff mark).1 inner
        exact ⟨rest, .empty blanks closed, after⟩
    | cons a as =>
        obtain ⟨t, blanks, inner⟩ := (scan_mark_iff start).1 scanned
        obtain ⟨rest, items, after⟩ := lexed.items_of_scan mark fitting inner
        exact ⟨rest, .items blanks items, after⟩

end TwinHeap.Json
