import UsageBilling.SampleStream
import UsageBilling.Text.LowerCase

/-!
Contract: the root disk of an instance that was booted from an image.

Owns:
- telling a boot from an image and a boot from a volume apart by metadata;
- the largest root disk of a window.

An instance booted from a volume has its disk billed with that volume, so one
such sample anywhere in a window leaves the window without a root disk.

Does not own: which service the disk is billed as.
-/

namespace UsageBilling.RootDisk

def imageKeys : List String := ["image_ref", "image_ref_url", "image_meta.base_image_ref"]

def sizeKeys : List String := ["root_gb", "disk_gb", "size"]

def noImageWord : String := "none"

/-- Whether a metadata value refers to an image. Null, blank text and the word
for no image do not; every other value does. -/
def refersToImage : Json → Bool
  | .null => false
  | .text s =>
    let reference := Text.trim s
    reference ≠ "" && !Text.eqIgnoringAsciiCase reference noImageWord
  | _ => true

/-- Whether a sample shows a boot from a volume: the first of the image keys
that is present refers to no image, or none is present. -/
def bootsFromVolume (keys : List String) (sample : Sample) : Bool :=
  match keys.findSome? sample.metadata.field? with
  | some reference => !refersToImage reference
  | none => true

/-- The largest root disk of samples; a sample without a size adds nothing. -/
def largestSize (samples : List Sample) : Decimal :=
  samples.foldl
    (fun held sample =>
      match sample.decimal? sizeKeys with
      | some size => held.larger size
      | none => held)
    Decimal.zero

/-- The root disk of a window's samples: none if there is no sample, or if one
shows a boot from a volume. -/
def size? (keys : List String) (samples : List Sample) : Option Decimal :=
  if samples.isEmpty || samples.any (bootsFromVolume keys) then none
  else some (largestSize samples)

end UsageBilling.RootDisk
