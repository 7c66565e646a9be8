import RubyIndex.Proofs.Indexing.Built
import RubyIndex.Proofs.Registry.Repetition
import RubyIndex.Proofs.Registry.Scopes

/-! # Indexing a text again

A text that has been indexed is indexed again without effect: every registration is admitted, since
there is an object of its kind, and repeats what has been said. Only the local scopes of the bodies
are created anew.

* `Indexing.stableUnderRequests_keepsScopes`: local scopes are only added.
* `Registry.Built.indexSource_again` is the result for a text that is indexed twice. -/

namespace RubyIndex

open Syntax Indexing Edit

/-! ## Local scopes -/

open Registry in
/-- **No request takes local scopes away** or changes them. -/
theorem Indexing.stableUnderRequests_keepsScopes (before : Registry) :
    StableUnderRequests before.KeepsScopes where
  register _ _ _ revision := Keeps.attempt fun _ _ _ hkeeps hok =>
    hkeeps.trans (.registerWith revision.revisesOnly_apply hok)
  newLocalScope _ _ _ := Keeps.attempt fun _ _ _ hkeeps hok =>
    hkeeps.trans (gainsScope_of_newLocalScope hok).2.keeps

/-! ## Texts -/

namespace Registry

/-- **Indexing a text again** succeeds if it did before. It leaves all objects as they are, and so
all documents, and only adds local scopes. -/
theorem Built.indexSource_again {registry : Registry} (hbuilt : Built registry)
    (file source : String)
    (hok : ((Indexing.indexSource file source).apply registry).1.isOk = true) :
    let once := ((Indexing.indexSource file source).apply registry).2
    let again := (Indexing.indexSource file source).apply once
    again.1.isOk = true ∧ once.SameObjects again.2 ∧ once.KeepsScopes again.2 ∧
      ∀ files renderer, Document.ofRegistry files renderer again.2 =
        Document.ofRegistry files renderer once := by
  intro once again
  have hrecords := (indexSource_makes hbuilt.sound file source).records hok
  have hmakes := indexSource_makes hrecords.sound file source
  have hokAgain : again.1.isOk = true := hmakes.isOk_iff.2 hrecords.admits_again
  have hrecordsAgain := hmakes.records hokAgain
  have hsame := hrecords.again hrecordsAgain
  refine ⟨hokAgain, hsame, ?_, ?_⟩
  · exact (keeps_indexSource (stableUnderRequests_keepsScopes once) file source once
      (.refl once)).leaves
  · exact hsame.ofRegistry_eq hrecords.sound.toWellFormed hrecordsAgain.sound.toWellFormed

/-- A class that a file opens twice, with a comment for the first definition and a superclass in
the second: only the scopes of the bodies are new. -/
theorem Built.indexSource_again_reopened :
    let source := "# one\nclass A\ndef x\nend\nend\nclass A < B\nend\n"
    let once := ((Indexing.indexSource "a.rb" source).apply .empty).2
    let again := ((Indexing.indexSource "a.rb" source).apply once).2
    once.SameObjects again ∧ once.scopes.size = 4 ∧ again.scopes.size = 8 := by
  intro source once again
  have hagain := Built.indexSource_again .empty "a.rb" source (by decide +kernel)
  exact ⟨hagain.2.1, by decide +kernel, by decide +kernel⟩

end Registry

end RubyIndex
