/-
# Descriptions of frames and streams

One line that names the fields worth knowing, for logs.
-/
import Subtitles.Stream.Checkout
import Subtitles.Decimal.Notation
import Subtitles.Text.Quoted
namespace Subtitles

set_option autoImplicit false

/-- A structure's name and its fields in braces. -/
def describe (name : String) (fields : List (String × String)) : String :=
  name ++ " \x7b " ++ ", ".intercalate (fields.map fun f => f.1 ++ ": " ++ f.2) ++ " \x7d"

def describeBool (b : Bool) : String := if b then "true" else "false"

def Options.description (o : Options) : String :=
  describe "SubOpts"
    [("render_ahead", s!"{o.renderAhead.toNat}"), ("visibility", describeBool o.visible)]

def HeldFrame.description (f : HeldFrame) : String :=
  describe "SubFrame"
    [("pts", Notation.description.write f.pts), ("cached", describeBool f.isCached),
      ("parts", s!"{f.frame.parts.length}"), ("change_id", s!"{f.frame.changeId}")]

/-- Not all fields of a stream are worth a place, which the dots say. -/
def Stream.description {σ : Type} [Backend σ] (s : Stream σ) : String :=
  "Coordinator \x7b codec: " ++ Text.quoted s.codec.name ++
    ", backend: " ++ Text.quoted s.backendName ++
    ", opts: " ++ s.options.description ++
    ", threaded: " ++ describeBool s.threaded ++ ", .. \x7d"

end Subtitles
