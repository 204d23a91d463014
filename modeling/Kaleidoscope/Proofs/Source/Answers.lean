import Mathlib.Data.List.TakeWhile
import Kaleidoscope.Source.Stream

/-! What sources of characters answer to one request after another. A source over a stream hands on its pieces up to
the first empty one, and from then on the empty piece without asking the stream. If the stream hands over the
characters of a text, it answers as a source over the text does. -/
namespace Kaleidoscope

namespace Stream

theorem reads_of_ended {pieces : List String} (ended : delivered pieces = []) (count : Nat) :
    reads pieces count = List.replicate count "" := by
  simp [reads, ended]

theorem reads_nil (count : Nat) : reads [] count = List.replicate count "" := reads_of_ended rfl count

theorem reads_cons {piece : String} (some : piece.isEmpty = false) (pieces : List String) (count : Nat) :
    reads (piece :: pieces) (count + 1) = piece :: reads pieces count := by
  have goesOn : delivered (piece :: pieces) = piece :: delivered pieces := by simp [delivered, some]
  rw [reads, reads, goesOn, List.take_succ_cons, List.length_cons, Nat.add_sub_add_right, List.cons_append]

theorem delivered_append (characters : List Char) (later : List String) :
    delivered (characters.map Char.toString ++ "" :: later) = characters.map Char.toString := by
  simp [delivered]

theorem delivered_map (characters : List Char) :
    delivered (characters.map Char.toString) = characters.map Char.toString := by
  simp [delivered, List.takeWhile_eq_self_iff]

theorem text_ofText_append (content : String) (later : List String) :
    Stream.text (ofText content ++ "" :: later) = content := by
  have joined (characters : List Char) : String.join (characters.map Char.toString) = String.ofList characters := by
    induction characters with
    | nil => rfl
    | cons c characters ih => simp [ih]
  rw [Stream.text, ofText, delivered_append, joined, String.ofList_toList]

theorem reads_ofText_append (content : String) (later : List String) :
    reads (ofText content ++ "" :: later) = reads (ofText content) := by
  funext count
  rw [reads, reads, ofText, delivered_append, delivered_map]

end Stream

def answersOf {Source : Type} (request : Source → String × Source) : Nat → Source → List String
  | 0, _ => []
  | count + 1, source => (request source).1 :: answersOf request count (request source).2

structure TextSource where
  characters : List Char
  /-- How many characters have been handed over. -/
  position : Nat

namespace TextSource

def ofText (content : String) : TextSource := ⟨content.toList, 0⟩

def readChar (source : TextSource) : String × TextSource :=
  match source.characters[source.position]? with
  | none => ("", source)
  | some c => (c.toString, { source with position := source.position + 1 })

theorem answersOf_readChar (source : TextSource) (count : Nat) : answersOf readChar count source =
    Stream.reads ((source.characters.drop source.position).map Char.toString) count := by
  induction count generalizing source with
  | zero => simp [answersOf, Stream.reads]
  | succ count ih =>
    cases next : source.characters[source.position]? with
    | none =>
      have stays : source.readChar = ("", source) := by rw [readChar, next]
      have ended : source.characters.drop source.position = [] :=
        List.drop_eq_nil_of_le (List.getElem?_eq_none_iff.mp next)
      rw [answersOf, stays, ih, ended, List.map_nil, Stream.reads_nil, Stream.reads_nil, List.replicate_succ]
    | some c =>
      have moves : source.readChar = (c.toString, { source with position := source.position + 1 }) := by
        rw [readChar, next]
      have front : source.characters.drop source.position = c :: source.characters.drop (source.position + 1) :=
        by rw [List.drop_eq_getElem?_toList_append, next]; rfl
      rw [answersOf, moves, ih, front, List.map_cons, Stream.reads_cons (by simp)]

end TextSource

structure StreamSource where
  /-- What the stream has not handed over yet; behind the last piece it hands over empty ones. -/
  pieces : List String
  exhausted : Bool

namespace StreamSource

def ofStream (pieces : List String) : StreamSource := ⟨pieces, false⟩

def readChar (source : StreamSource) : String × StreamSource :=
  if source.exhausted then ("", source)
  else
    let piece := source.pieces.headD ""
    (piece, ⟨source.pieces.tail, piece.isEmpty⟩)

theorem answersOf_exhausted (pieces : List String) (count : Nat) :
    answersOf readChar count ⟨pieces, true⟩ = List.replicate count "" := by
  induction count with
  | zero => rfl
  | succ count ih => exact congrArg ("" :: ·) ih

/-- The answers are those that a stream gives up to its end. -/
theorem answersOf_readChar (pieces : List String) (count : Nat) :
    answersOf readChar count (ofStream pieces) = Stream.reads pieces count := by
  induction count generalizing pieces with
  | zero => simp [answersOf, Stream.reads]
  | succ count ih =>
    cases pieces with
    | nil =>
      have asks : (ofStream []).readChar = ("", ⟨[], true⟩) := rfl
      rw [answersOf, asks, answersOf_exhausted, Stream.reads_nil, List.replicate_succ]
    | cons piece pieces =>
      have asks : (ofStream (piece :: pieces)).readChar = (piece, ⟨pieces, piece.isEmpty⟩) := rfl
      cases empty : piece.isEmpty with
      | true =>
        have ended : Stream.delivered (piece :: pieces) = [] := by simp [Stream.delivered, empty]
        obtain rfl := String.isEmpty_iff.mp empty
        rw [answersOf, asks, empty, answersOf_exhausted, Stream.reads_of_ended ended, List.replicate_succ]
      | false => rw [answersOf, asks, empty, ← ofStream, ih, Stream.reads_cons empty]

/-- A stream that hands over the characters of a text and then an empty piece is as good as the text. -/
theorem answers_ofText (content : String) (later : List String) (count : Nat) :
    answersOf readChar count (ofStream (Stream.ofText content ++ "" :: later)) =
      answersOf TextSource.readChar count (TextSource.ofText content) := by
  rw [answersOf_readChar, TextSource.answersOf_readChar, Stream.reads_ofText_append]
  rfl

end StreamSource
end Kaleidoscope
