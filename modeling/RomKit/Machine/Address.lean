/-!
# Addresses

The machine has 8 MiB of memory. An image is placed so that its last byte is at
the top, so the address of an offset depends on the length of the image.
-/

namespace RomKit

/-- The number of addressable bytes. -/
def addressSpace : Nat := 8 * 1024 * 1024

/-- The address of an offset in an image of the given length that ends at the top of memory. -/
def placedAddress (offset length : Int) : Int :=
  addressSpace - length + offset

end RomKit
