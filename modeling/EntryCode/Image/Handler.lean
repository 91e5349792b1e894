import EntryCode.Image.Basic
import EntryCode.Native.Handler

/-!
Signature handlers for an image: they end in its result handlers and use its extensions.
-/

namespace EntryCode.Image

inductive HandlerError where
  | signature (e : Signature.Error)
  | noResultHandler (t : BasicType)
  | features (u : Extensions.Unknown)
  | generator (v : Violation)
  deriving DecidableEq, Repr

def HandlerError.message : HandlerError → String
  | .signature e => e.message
  | .noResultHandler t => s!"image has no result handler for {t.name}"
  | .features u => u.message
  | .generator v => v.message

def signatureHandler (i : Image) (sig : Signature) (static : Bool) : Except HandlerError Bytes := do
  let result ← match i.resultHandler? sig.result with
    | some addr => pure addr
    | none => throw (.noResultHandler sig.result)
  let e ← (Extensions.ofNames (i.features.getD [])).mapError .features
  (Handler.generate sig static result e).mapError .generator

/-- The listing of the handler for a method descriptor, under the key of the signature. -/
def handlerListing (i : Image) (descriptor : String) (static : Bool) :
    Except HandlerError String := do
  let sig ← (Signature.ofDescriptor descriptor).mapError .signature
  let code ← i.signatureHandler sig static
  return s!"signature handler {sig.key static}\n" ++ Listing.render 0 (Listing.lines code [])

end EntryCode.Image
