import FrameCursor.Cursor
import FrameCursor.Text
import FrameCursor.Text.Blank

set_option autoImplicit false

namespace FrameCursor

namespace Cursor

def remaining (c : Cursor Text) : Nat :=
  match c.subject with
  | none => 0
  | some t => t.length - c.position

def skip (p : Char → Bool) : Nat → Cursor Text → Cursor Text
  | 0, c => c
  | n + 1, c =>
    match c.peek 0 with
    | none => c
    | some ch => if p ch then skip p n (c.next 0).2 else c

def skipWhile (p : Char → Bool) (c : Cursor Text) : Cursor Text := skip p c.remaining c

/-- Skips blanks and cuts out what follows up to the next blank. Before the end of a text that ends
in blanks this cuts out nothing. -/
def cutWord (c : Cursor Text) : Reply Text (Except CursorError Excerpt) :=
  (c.skipWhile isBlank).record.andThen fun _ marked =>
    (marked.skipWhile fun ch => !isBlank ch).flush

def wordsWithin : Nat → Cursor Text → Reply Text (Except CursorError (List Excerpt))
  | 0, c => ⟨.ok [], c, []⟩
  | n + 1, c =>
    if c.atEnd 0 then ⟨.ok [], c, []⟩
    else
      c.cutWord.andThen fun word after =>
        if word.isEmpty then wordsWithin n after
        else
          let rest := wordsWithin n after
          ⟨rest.result.map (word :: ·), rest.cursor,
            .word word.text after.position :: rest.events⟩

/-- The words from the position on. Each round moves past a character, so that there are no more
rounds than characters, and one more finds the end. Without a text there is no end to find, and the
first round fails. -/
def words (c : Cursor Text) : Reply Text (Except CursorError (List Excerpt)) :=
  wordsWithin (c.remaining + 1) c

end Cursor

end FrameCursor
