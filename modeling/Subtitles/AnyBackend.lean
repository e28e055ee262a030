/-
# AnyBackend: the backends there are

The built-in backends, in the order in which they are tried, and two that help to exercise a
stream: one that tallies what it decodes, and a bare one with all optional operations left at
their defaults.
-/
import Subtitles.PictureBackend
import Subtitles.TallyBackend
import Subtitles.TextBackend
namespace Subtitles

set_option autoImplicit false

/-- Takes every codec, decodes nothing and shows nothing. -/
structure BareBackend where
  deriving Repr

instance : Backend BareBackend where
  name _ := "bare"
  init _ b := (.ok (), b)
  decode _ b := b
  render _ _ b := (.ok (.blank 1), b)

inductive AnyBackend
  | picture (b : PictureBackend)
  | text (b : TextBackend)
  | tally (b : TallyBackend)
  | bare (b : BareBackend)
  deriving Repr

namespace AnyBackend

/-- Fresh built-in backends, in matching order. -/
def builtin : List AnyBackend := [.picture {}, .text {}]

instance : Backend AnyBackend where
  name
    | .picture b => Backend.name b
    | .text b => Backend.name b
    | .tally b => Backend.name b
    | .bare b => Backend.name b
  init codec
    | .picture b => (Backend.init codec b).map id .picture
    | .text b => (Backend.init codec b).map id .text
    | .tally b => (Backend.init codec b).map id .tally
    | .bare b => (Backend.init codec b).map id .bare
  decode p
    | .picture b => .picture (Backend.decode p b)
    | .text b => .text (Backend.decode p b)
    | .tally b => .tally (Backend.decode p b)
    | .bare b => .bare (Backend.decode p b)
  render g pts
    | .picture b => (Backend.render g pts b).map id .picture
    | .text b => (Backend.render g pts b).map id .text
    | .tally b => (Backend.render g pts b).map id .tally
    | .bare b => (Backend.render g pts b).map id .bare
  text pts
    | .picture b => (Backend.text pts b).map id .picture
    | .text b => (Backend.text pts b).map id .text
    | .tally b => (Backend.text pts b).map id .tally
    | .bare b => (Backend.text pts b).map id .bare
  accepts
    | .picture b => Backend.accepts b
    | .text b => Backend.accepts b
    | .tally b => Backend.accepts b
    | .bare b => Backend.accepts b
  reset
    | .picture b => .picture (Backend.reset b)
    | .text b => .text (Backend.reset b)
    | .tally b => .tally (Backend.reset b)
    | .bare b => .bare (Backend.reset b)
  select on
    | .picture b => .picture (Backend.select on b)
    | .text b => .text (Backend.select on b)
    | .tally b => .tally (Backend.select on b)
    | .bare b => .bare (Backend.select on b)
  control c
    | .picture b => (Backend.control c b).map id .picture
    | .text b => (Backend.control c b).map id .text
    | .tally b => (Backend.control c b).map id .tally
    | .bare b => (Backend.control c b).map id .bare
  close
    | .picture b => .picture (Backend.close b)
    | .text b => .text (Backend.close b)
    | .tally b => .tally (Backend.close b)
    | .bare b => .bare (Backend.close b)

/-- How many events or pictures a built-in backend holds. -/
def heldCount : AnyBackend → Option Nat
  | .picture b => some b.pictures.size
  | .text b => some b.events.length
  | .tally _ | .bare _ => none

end AnyBackend
end Subtitles
