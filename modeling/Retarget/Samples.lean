/-
# Samples -- kernel files that come with the program

Four small files used for demonstrations: a vector kernel with its scalar counterpart, distance
computations with a helper, plain loops, and calls worth inlining.
-/

namespace Retarget

structure Sample where
  name : String
  text : String
deriving Repr, Inhabited

namespace Sample

def ofLines (name : String) (lines : List String) : Sample :=
  ⟨name, String.join (lines.map (· ++ "\n"))⟩

def distance : Sample := ofLines "distance" [
  "package kernels",
  "",
  "// Test clamps the distance between two norm vectors at zero.",
  "func Test(xNorms *float, i int, yNorms *float, ipLine *float, ny size_t) \x7b",
  "\tfor j := 0; j < ny; j++ \x7b",
  "\t\tvar ip float = *ipLine",
  "\t\tvar dis float = xNorms[i] + yNorms[j] - 2*ip",
  "\t\tif dis < 0 \x7b",
  "\t\t\tdis = 0",
  "\t\t\x7d",
  "\t\t*ipLine = dis",
  "\t\tipLine++",
  "\t\x7d",
  "\x7d",
  "",
  "func cal_call(xNorms *float, i int, j int, yNorms *float, ip float) float \x7b",
  "\treturn xNorms[i] + yNorms[j] - 2*ip",
  "\x7d",
  "",
  "// Test_call is Test with the distance moved into a helper.",
  "func Test_call(xNorms *float, i int, yNorms *float, ipLine *float, ny size_t) \x7b",
  "\tfor j := 0; j < ny; j++ \x7b",
  "\t\tvar ip float = *ipLine",
  "\t\tvar dis float = cal_call(xNorms, i, j, yNorms, ip)",
  "\t\tif dis < 0 \x7b",
  "\t\t\tdis = 0",
  "\t\t\x7d",
  "\t\t*ipLine = dis",
  "\t\tipLine++",
  "\t\x7d",
  "\x7d",
  "",
  "// external_norm has no body here; it is linked in from elsewhere.",
  "func external_norm(v *float, n int) float",
  "",
  "func Test_external(v *float, n int, out *float) \x7b",
  "\tvar norm float = external_norm(v, n)",
  "\t*out = norm",
  "\x7d"]

def inline : Sample := ofLines "inline" [
  "package kernels",
  "",
  "func maxf(a float, b float) float \x7b",
  "\tif a > b \x7b",
  "\t\treturn a",
  "\t\x7d",
  "\treturn b",
  "\x7d",
  "",
  "func minf(a float, b float) float \x7b",
  "\tif a < b \x7b",
  "\t\treturn a",
  "\t\x7d",
  "\treturn b",
  "\x7d",
  "",
  "func clampf(x float, lo float, hi float) float \x7b",
  "\treturn minf(maxf(x, lo), hi)",
  "\x7d",
  "",
  "func absf(x float) float \x7b",
  "\tif x < 0 \x7b",
  "\t\treturn -x",
  "\t\x7d",
  "\treturn x",
  "\x7d",
  "",
  "func scale(x float) float \x7b",
  "\treturn x * 2.0",
  "\x7d",
  "",
  "func apply(a *float, out *float, n int) \x7b",
  "\tfor i := 0; i < n; i++ \x7b",
  "\t\tout[i] = clampf(scale(a[i]), 0.0, 1.0)",
  "\t\x7d",
  "\x7d",
  "",
  "func store_all(a *float, n int, v float) \x7b",
  "\tfor i := 0; i < n; i++ \x7b",
  "\t\ta[i] = absf(v)",
  "\t\x7d",
  "\x7d"]

def loops : Sample := ofLines "loops" [
  "package kernels",
  "",
  "func straight() int \x7b",
  "\tx := 1",
  "\ty := x + 1",
  "\treturn y",
  "\x7d",
  "",
  "func sum(a *float, n int) float \x7b",
  "\tvar total float = 0.0",
  "\tfor i := 0; i < n; i++ \x7b",
  "\t\ttotal += a[i]",
  "\t\x7d",
  "\treturn total",
  "\x7d",
  "",
  "func saxpy(x *float, y *float, alpha float, n int) \x7b",
  "\tfor i := 0; i < n; i++ \x7b",
  "\t\ty[i] = alpha*x[i] + y[i]",
  "\t\x7d",
  "\x7d",
  "",
  "func prefix(a *float, n int) \x7b",
  "\tfor i := 1; i < n; i++ \x7b",
  "\t\ta[i] = a[i-1] + a[i]",
  "\t\x7d",
  "\x7d",
  "",
  "func strided(a *float, b *float, n int) \x7b",
  "\tfor i := 0; i < n; i += 2 \x7b",
  "\t\tb[i] = a[i] * 2.0",
  "\t\x7d",
  "\x7d",
  "",
  "func branches(a int, b int) int \x7b",
  "\tvar r int = 0",
  "\tif a > b \x7b",
  "\t\tr = a - b",
  "\t\x7d else \x7b",
  "\t\tr = b - a",
  "\t\x7d",
  "\tfor r > 10 \x7b",
  "\t\tr = r / 2",
  "\t\x7d",
  "\treturn r",
  "\x7d",
  "",
  "func dead(a int) int \x7b",
  "\tvar unused int = a * 2",
  "\tvar t int = a + 1",
  "\tvar u int = a + 1",
  "\treturn t + u",
  "\x7d"]

def lowercase : Sample := ofLines "lowercase" [
  "package kernels",
  "",
  "// lower_case_avx2 lower-cases len bytes of src into dst, 32 at a time.",
  "func lower_case_avx2(dst *uint8_t, src *uint8_t, len size_t) \x7b",
  "\tconst _A __m256i = _mm256_set1_epi8('A' - 1)",
  "\tconst Z_ __m256i = _mm256_set1_epi8('Z' + 1)",
  "\tconst delta __m256i = _mm256_set1_epi8('a' - 'A')",
  "\tvar q *uint8_t = dst",
  "",
  "\tfor len >= 32 \x7b",
  "\t\tvar op __m256i = _mm256_loadu_si256((*__m256i)(src))",
  "\t\tvar gt __m256i = _mm256_cmpgt_epi8(op, _A)",
  "\t\tvar lt __m256i = _mm256_cmpgt_epi8(Z_, op)",
  "\t\tvar mingle __m256i = _mm256_and_si256(gt, lt)",
  "\t\tvar add __m256i = _mm256_and_si256(mingle, delta)",
  "\t\tvar lower __m256i = _mm256_add_epi8(op, add)",
  "\t\t_mm256_storeu_si256((*__m256i)(q), lower)",
  "\t\tsrc += 32",
  "\t\tq += 32",
  "\t\tlen -= 32",
  "\t\x7d",
  "\x7d",
  "",
  "// lower_case_scalar is the reference loop.",
  "func lower_case_scalar(dst *uint8_t, src *uint8_t, len size_t) \x7b",
  "\tfor i := 0; i < len; i++ \x7b",
  "\t\tvar c uint8_t = src[i]",
  "\t\tif c >= 'A' && c <= 'Z' \x7b",
  "\t\t\tc = c + 32",
  "\t\t\x7d",
  "\t\tdst[i] = c",
  "\t\x7d",
  "\x7d"]

def all : List Sample := [distance, inline, loops, lowercase]

def find? (name : String) : Option Sample := all.find? (·.name == name)

/-- The name of the file a sample is parsed as. -/
def file (s : Sample) : String := s.name ++ ".go"

end Sample

end Retarget
