import Longhand.Proofs.Keys
import Longhand.Proofs.Namespace

/-!
# Distinct keys from stage to stage

Whatever a document looks like, applying namespaces leaves no object with a
repeated key, and the stages behind keep it so: fragments are put in long form
before they replace a marker, and expanding bare type names changes no key.
-/

namespace Longhand

/-- Applying namespaces leaves no repeated key, whatever was there before. -/
theorem Namespacing.wellFormed_normalize (spec : Namespacing) (value : Value) :
    (spec.normalize value).WellFormed := by
  have anyName : value.EveryKey (spec.GoesBy fun _ => True) :=
    fun _ _ _ _ _ _ _ => trivial
  rw [Value.wellFormed_iff_everyObject]
  refine everyObject_normalize (by simp) ?_ anyName
  intro members name value _ distinct
  exact Members.nodup_keys_set members name value distinct

theorem Schema.wellFormed_expand {value : Value} (inValue : value.WellFormed) :
    (expand value).WellFormed := by
  rw [Value.wellFormed_iff_everyObject] at *
  exact (everyObject_expand_iff Value.keptByKeys_nodup (by simp)).mpr inValue

/-! ## References -/

namespace Fragment

variable {source : Source}

theorem Source.Prepared.wellFormed {identity : String} {fragment : Value}
    (prepared : source.Prepared identity fragment) : fragment.WellFormed := by
  obtain ⟨raw, -, prepared⟩ := prepared
  rw [Source.prepare] at prepared
  split at prepared
  · obtain rfl := Except.ok.inj prepared
    exact Namespacing.wellFormed_normalize _ _
  · simp at prepared

theorem Source.everyPrepared_nodup :
    source.EveryPrepared fun members => (Members.keys members).Nodup :=
  fun _ _ prepared => Value.wellFormed_iff_everyObject.mp prepared.wellFormed

/-- A well-formed value stands for a well-formed result. -/
theorem Resolves.wellFormed {room : Nat} {value result : Value}
    (derivation : Resolves source room value result)
    (inValue : value.WellFormed) : result.WellFormed := by
  rw [Value.wellFormed_iff_everyObject] at *
  exact derivation.everyObject Value.keptByKeys_nodup Source.everyPrepared_nodup
    inValue

theorem ResolvesTarget.wellFormed {room : Nat} {target : String} {result : Value}
    (derivation : ResolvesTarget source room target result) :
    result.WellFormed := by
  rw [Value.wellFormed_iff_everyObject]
  exact derivation.everyObject Value.keptByKeys_nodup Source.everyPrepared_nodup

end Fragment

/-! ## Definitions -/

theorem Definition.wellFormed_withoutOwn {document : Value}
    (inDocument : document.WellFormed) : (withoutOwn document).WellFormed := by
  rw [Value.wellFormed_iff_everyObject] at *
  exact everyObject_withoutOwn Value.keptByKeys_nodup inDocument

end Longhand
