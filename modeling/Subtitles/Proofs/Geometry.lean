/-
# Proofs.Geometry: what same geometries have in common
-/
import Subtitles.Geometry
import Subtitles.Proofs.Binary64
namespace Subtitles

set_option autoImplicit false

namespace Margins

variable {m n o : Margins}

theorem Same.symm (same : m.Same n) : n.Same m :=
  ⟨same.1.symm, same.2.1.symm, same.2.2.1.symm, same.2.2.2.symm⟩

theorem Same.trans (first : m.Same n) (second : n.Same o) : m.Same o :=
  ⟨first.1.trans second.1, first.2.1.trans second.2.1, first.2.2.1.trans second.2.2.1,
    first.2.2.2.trans second.2.2.2⟩

end Margins

namespace Geometry

variable {g h k : Geometry}

theorem Same.symm (same : g.Same h) : h.Same g :=
  ⟨same.1.symm, same.2.1.symm, same.2.2.1.symm, same.2.2.2.symm⟩

theorem Same.trans (first : g.Same h) (second : h.Same k) : g.Same k :=
  ⟨first.1.trans second.1, first.2.1.trans second.2.1, first.2.2.1.trans second.2.2.1,
    first.2.2.2.trans second.2.2.2⟩

theorem Same.isVoid_eq (same : g.Same h) : g.isVoid = h.isVoid := by
  rw [isVoid, isVoid, same.1, same.2.1]

theorem Same.areaHeight_eq (same : g.Same h) : g.areaHeight = h.areaHeight := by
  obtain ⟨-, height, ⟨-, top, -, bottom⟩, -⟩ := same
  have left : (Binary64.ofNat g.height.toNat - g.margins.top.atLeastZero - g.margins.bottom.atLeastZero).Alike
      (.ofNat h.height.toNat - h.margins.top.atLeastZero - h.margins.bottom.atLeastZero) := by
    rw [height]
    exact ((Binary64.Alike.refl _).sub top.alike.atLeastZero).sub bottom.alike.atLeastZero
  exact congrArg (fun i : Int => UInt32.ofNat i.toNat) ((left.maximum (.refl .one)).clampTo_eq 0 0xffffffff)

end Geometry
end Subtitles
