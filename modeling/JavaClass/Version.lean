/-
  JavaClass.Version — versions of the class file format.
-/

namespace JavaClass

/-- The release that introduced a version of the format. -/
def releaseName (major minor : Int) : String :=
  if major < 45 then s!"Unknown ({major}.{minor})"
  else if major = 45 then (if 3 ≤ minor then "Java 1.1" else "Java 1.0.2")
  else if major ≤ 48 then s!"Java 1.{major - 44}"
  else s!"Java {major - 44}"

end JavaClass
