import GptCache.Eviction.GdsfAgeing
import GptCache.Eviction.Scaling
import GptCache.Processor.Context
import GptCache.Manager.Restart
import GptCache.Manager.NoReturn
import GptCache.Manager.FailedDelete
import GptCache.Manager.Backlog
import GptCache.Manager.Population
import GptCache.Manager.SoftDelete
import GptCache.Manager.Sessions
import GptCache.Manager.Orphans
import GptCache.Manager.RedisClients
import GptCache.Adapter.AsyncDrift
import GptCache.Adapter.StreamSave
import GptCache.Adapter.SessionRun
import GptCache.Adapter.Reopen
import GptCache.Adapter.Units
import GptCache.Manager.Costs
import GptCache.Processor.Template
import GptCache.Processor.TemplateKeys
import GptCache.Manager.MapListing
import GptCache.Manager.MapCapacity
import GptCache.Evaluation.KReciprocal
import GptCache.Evaluation.SequenceMatch
import GptCache.Manager.ObjectAnswers
import GptCache.Processor.LlmVerifier
import GptCache.Processor.SummarizeTermination
import GptCache.Manager.SessionFilters
import GptCache.Benchmarks.Pollution
import GptCache.Eviction.GdsfHeap
import GptCache.Eviction.GdsfInflation
import GptCache.Processor.Segmentation
import GptCache.Processor.ConcatQueries
import GptCache.Adapter.Chats
