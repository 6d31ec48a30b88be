import Reckoner.CompileError
import Reckoner.Proofs.Span

/-!
Computations that fail only at places of the source. Either a computation gives something with a property, or
all places that its error names can be read back from the source, and steps that do so can be put together.
-/
namespace Reckoner

/-- All places that the error names can be read back from the source. -/
structure CompileError.Located (source : String) (error : CompileError) : Prop where
  span : error.span.Fits source
  related : ∀ other ∈ error.related, other.1.Fits source

/-- What is computed has the property, or the error is located in the source. -/
def Yields {α : Type} (source : String) (property : α → Prop) : Except CompileError α → Prop
  | .ok a => property a
  | .error error => error.Located source

namespace CompileError

variable {source : String} {error : CompileError} {span : Span}

theorem located_atSpan (cause : Cause) (fits : span.Fits source) : (cause.atSpan span).Located source :=
  ⟨fits, by simp [Cause.atSpan]⟩

theorem Located.withRelated (located : error.Located source) (fits : span.Fits source) (note : String) :
    (error.withRelated span note).Located source := by
  refine ⟨located.span, fun other mem => ?_⟩
  rcases List.mem_append.mp mem with old | new
  · exact located.related other old
  · cases List.mem_singleton.mp new
    exact fits

end CompileError

namespace Yields

variable {α β : Type} {source : String} {property other : α → Prop} {result : Except CompileError α}

theorem of_ok {a : α} (yields : Yields source property result) (found : result = .ok a) : property a := by
  subst found
  exact yields

theorem of_error {error : CompileError} (yields : Yields source property result)
    (failed : result = .error error) : error.Located source := by
  subst failed
  exact yields

theorem mono (yields : Yields source property result) (weaker : ∀ a, property a → other a) :
    Yields source other result := by
  cases result with
  | ok a => exact weaker a yields
  | error error => exact yields

theorem bind {next : α → Except CompileError β} {after : β → Prop} (first : Yields source property result)
    (second : ∀ a, property a → Yields source after (next a)) : Yields source after (result >>= next) := by
  cases result with
  | ok a => exact second a first
  | error error => exact first

theorem atSpan {span : Span} (cause : CompileError.Cause) (fits : span.Fits source) :
    Yields source property (.error (cause.atSpan span)) :=
  CompileError.located_atSpan cause fits

end Yields

end Reckoner
